/-
A value behind a lead.

The patterns of declarations are a lead, which is only there to find the value,
and a group that holds the value.  A match of such a pattern is a word of the
lead followed by the word that the value prefers behind it, and what the value
prefers depends on the text from there on alone.

* `Thread.Yields.split` — matching nodes and then goals;
* `Thread.Picks` — the word that nodes prefer at the beginning of a text;
* `Thread.Picks.upTo` — a word depends neither on what lies behind a character
  that the nodes never ask for nor on what stands before it;
* `Program.Declares` — a program of a lead and a value;
* `Program.Declares.yieldsAt`, `Program.Declares.exists_yieldsAt` — its matches.
-/
import StyleTokens.Proofs.Pattern.Leftmost

namespace StyleTokens

open Text Language

/-! ### Nodes without groups -/

/-- A node that records nothing. -/
def Node.GroupFree (node : Node) : Prop :=
  ∀ name, Leaf.name name ∉ node.leaves

namespace Node

variable {node : Node} {before after : Option Char} {offset : Nat}

/-- Running a node asks no more than the node. -/
theorem leaves_of_go {goals : List Goal} (h : node.step before after offset = .go goals) :
    ∀ n ∈ nodesOf goals, n.leaves ⊆ node.leaves := by
  cases step_eq_go_iff.1 h <;> simp [leaves]

theorem leaves_of_fork {label : Nat} {first second : List Goal}
    (h : node.step before after offset = .fork label first second) :
    ∀ goals ∈ [first, second], ∀ n ∈ nodesOf goals, n.leaves ⊆ node.leaves := by
  cases step_eq_fork_iff.1 h <;> simp [leaves]

namespace GroupFree

/-- A node without groups only runs nodes. -/
theorem of_go {goals : List Goal} (hg : node.GroupFree)
    (h : node.step before after offset = .go goals) :
    goals = (nodesOf goals).map .run ∧ ∀ n ∈ nodesOf goals, n.GroupFree := by
  refine ⟨?_, fun n hn name hm => hg name (leaves_of_go h n hn hm)⟩
  cases step_eq_go_iff.1 h with
  | @group name _ => exact absurd (List.mem_cons_self) (hg name)
  | _ => rfl

theorem of_fork {label : Nat} {first second : List Goal} (hg : node.GroupFree)
    (h : node.step before after offset = .fork label first second) :
    ∀ goals ∈ [first, second], goals = (nodesOf goals).map .run ∧
      ∀ n ∈ nodesOf goals, n.GroupFree := by
  refine fun goals hm => ⟨?_, fun n hn name hl => hg name (leaves_of_fork h goals hm n hn hl)⟩
  simp only [List.mem_cons, List.not_mem_nil, or_false] at hm
  cases step_eq_fork_iff.1 h <;> rcases hm with rfl | rfl <;> rfl

/-- What a node without groups comes to does not depend on offsets. -/
theorem step_offset (hg : node.GroupFree) (offset' : Nat) :
    node.step before after offset' = node.step before after offset := by
  cases node with
  | group name body => exact absurd (List.mem_cons_self) (hg name)
  | _ => rfl

end GroupFree

end Node

namespace Thread

variable {place : Cursor} {thread : Thread} {result : Option Match}

/-- Goals that begin with nodes that record nothing. -/
def Starts (thread : Thread) (nodes : List Node) (goals : List Goal) : Prop :=
  thread.goals = nodes.map .run ++ goals ∧ ∀ n ∈ nodes, n.GroupFree

namespace Starts

variable {node : Node} {nodes : List Node} {goals : List Goal} {next first second : Thread}
  {label : Nat}

theorem moveAt_eq (h : thread.Starts (node :: nodes) goals) : thread.moveAt place =
    match node.step place.before place.rest.head? place.offset with
    | .wait => .wait
    | .dead => .dead
    | .go new => .go (thread.withGoals (new ++ (nodes.map .run ++ goals)))
    | .fork label first second =>
      .fork label (thread.withGoals (first ++ (nodes.map .run ++ goals)))
        (thread.withGoals (second ++ (nodes.map .run ++ goals))) := by
  rw [moveAt, move, h.1]
  rfl

theorem append {new : List Goal} (h : thread.Starts (node :: nodes) goals)
    (hn : new = (nodesOf new).map .run ∧ ∀ n ∈ nodesOf new, n.GroupFree) :
    (thread.withGoals (new ++ (nodes.map .run ++ goals))).Starts (nodesOf new ++ nodes) goals := by
  refine ⟨?_, fun n hm => ?_⟩
  · rw [List.map_append, ← hn.1, List.append_assoc]
    rfl
  · rcases List.mem_append.1 hm with hm | hm
    · exact hn.2 n hm
    · exact h.2 n (List.mem_cons_of_mem _ hm)

/-- Running the first node. -/
theorem go (h : thread.Starts (node :: nodes) goals) (hm : thread.moveAt place = .go next) :
    ∃ new, node.step place.before place.rest.head? place.offset = .go new ∧
      next = thread.withGoals (new ++ (nodes.map .run ++ goals)) ∧
      next.Starts (nodesOf new ++ nodes) goals := by
  rw [h.moveAt_eq] at hm
  split at hm
  · simp at hm
  · simp at hm
  · next new hs =>
    obtain rfl := Move.go.inj hm
    exact ⟨new, hs, rfl, h.append ((h.2 node List.mem_cons_self).of_go hs)⟩
  · simp at hm

theorem fork (h : thread.Starts (node :: nodes) goals)
    (hm : thread.moveAt place = .fork label first second) :
    ∃ new new', node.step place.before place.rest.head? place.offset = .fork label new new' ∧
      (first = thread.withGoals (new ++ (nodes.map .run ++ goals)) ∧
        first.Starts (nodesOf new ++ nodes) goals) ∧
      second = thread.withGoals (new' ++ (nodes.map .run ++ goals)) ∧
        second.Starts (nodesOf new' ++ nodes) goals := by
  rw [h.moveAt_eq] at hm
  split at hm
  · simp at hm
  · simp at hm
  · simp at hm
  · next new new' hs =>
    obtain ⟨rfl, rfl, rfl⟩ := Move.fork.inj hm
    have hfree := (h.2 node List.mem_cons_self).of_fork hs
    exact ⟨new, new', hs, ⟨rfl, h.append (hfree new (by simp))⟩, rfl,
      h.append (hfree new' (by simp))⟩

theorem wait (h : thread.Starts (node :: nodes) goals) (hm : thread.moveAt place = .wait) :
    ∃ set, node = .one set := by
  obtain ⟨set, others, hg⟩ := moveAt_wait hm
  rw [h.1] at hg
  exact ⟨set, Goal.run.inj (List.cons.inj hg).1⟩

theorem dead (h : thread.Starts (node :: nodes) goals) (hm : thread.moveAt place = .dead) :
    node.step place.before place.rest.head? place.offset = .dead := by
  obtain ⟨other, others, hg, hs⟩ := moveAt_dead hm
  rw [h.1] at hg
  obtain rfl := Goal.run.inj (List.cons.inj hg).1
  exact hs

theorem consume {set : CharSet} {c : Char} (h : thread.Starts (.one set :: nodes) goals)
    (hc : thread.consume? c = some next) : set.contains c = true ∧
      next = thread.withGoals (nodes.map .run ++ goals) ∧ next.Starts nodes goals := by
  obtain ⟨other, others, hg, hset, rfl⟩ := consume?_eq_some hc
  rw [h.1] at hg
  obtain ⟨hhead, rfl⟩ := List.cons.inj hg
  obtain rfl := Node.one.inj (Goal.run.inj hhead)
  exact ⟨hset, rfl, rfl, fun n hn => h.2 n (List.mem_cons_of_mem _ hn)⟩

end Starts

end Thread

/-- The place behind a word. -/
def Cursor.behind (place : Cursor) (word rest : List Char) : Cursor :=
  ⟨endChar place.before word, place.offset + byteLength word, rest⟩

namespace Thread

/-- What a thread that starts with nodes leads to, by the words of the nodes and
the goals behind them. -/
structure Splits (place : Cursor) (thread : Thread) (nodes : List Node) (goals : List Goal)
    (result : Option Match) : Prop where
  some_of : ∀ found, result = some found → ∃ word rest, place.rest = word ++ rest ∧
    spellsAll nodes place.before word rest ∧
    (thread.withGoals goals).Yields (place.behind word rest) (some found)
  none_of : result = none → ∀ word rest, place.rest = word ++ rest →
    spellsAll nodes place.before word rest →
    (thread.withGoals goals).Yields (place.behind word rest) none

namespace Splits

variable {place : Cursor} {thread next : Thread} {node : Node} {nodes : List Node}
  {goals : List Goal} {result : Option Match}

theorem nil (h : thread.Yields place result) (hs : thread.Starts [] goals) :
    Splits place thread [] goals result := by
  have hg : thread.withGoals goals = thread := by
    obtain ⟨start, captures, g⟩ := thread
    have := hs.1
    simp only [List.map_nil, List.nil_append] at this
    rw [withGoals, this]
  rw [← hg] at h
  constructor
  · rintro found rfl
    exact ⟨[], place.rest, rfl, rfl, h⟩
  · rintro rfl word rest hrest rfl
    rw [List.nil_append] at hrest
    rw [← hrest]
    exact h

/-- The words of a node are those of what it goes on with. -/
theorem of_go {new others : List Goal}
    (hs : node.step place.before place.rest.head? place.offset = .go new)
    (h : Splits place (thread.withGoals others) (nodesOf new ++ nodes) goals result) :
    Splits place thread (node :: nodes) goals result := by
  have hiff : ∀ word rest, place.rest = word ++ rest →
      (spellsAll (node :: nodes) place.before word rest ↔
        spellsAll (nodesOf new ++ nodes) place.before word rest) := by
    intro word rest hrest
    rw [hrest] at hs
    rw [spellsAll_append, spellsAll, Node.spells_of_go hs]
  constructor
  · intro found hf
    obtain ⟨word, rest, hrest, hw, hy⟩ := h.some_of found hf
    exact ⟨word, rest, hrest, (hiff word rest hrest).2 hw, hy⟩
  · exact fun hf word rest hrest hw => h.none_of hf word rest hrest ((hiff word rest hrest).1 hw)

end Splits

/-- Matching nodes and then goals: a match covers a word of the nodes behind which
the goals lead to it, and without a match no word of the nodes has one behind it. -/
theorem Yields.split {place : Cursor} {thread : Thread} {result : Option Match}
    (h : thread.Yields place result) : ∀ (nodes : List Node) (goals : List Goal),
    thread.Starts nodes goals → Splits place thread nodes goals result := by
  induction h with
  | done move =>
    intro nodes goals hs
    rcases nodes with _ | ⟨node, nodes⟩
    · exact .nil (.done move) hs
    · rw [hs.moveAt_eq] at move
      split at move <;> simp at move
  | dead move =>
    intro nodes goals hs
    rcases nodes with _ | ⟨node, nodes⟩
    · exact .nil (.dead move) hs
    · refine ⟨by simp, fun _ word rest hrest hw => ?_⟩
      have hdead := hs.dead move
      rw [hrest] at hdead
      exact absurd hw (Node.not_spells_of_dead hdead)
  | go move h ih =>
    intro nodes goals hs
    rcases nodes with _ | ⟨node, nodes⟩
    · exact .nil (.go move h) hs
    · obtain ⟨new, hstep, rfl, hs'⟩ := hs.go move
      exact (ih _ goals hs').of_go hstep
  | @stuck place thread move hc =>
    intro nodes goals hs
    rcases nodes with _ | ⟨node, nodes⟩
    · exact .nil (.stuck move hc) hs
    · refine ⟨by simp, fun _ word rest hrest hw => ?_⟩
      obtain ⟨set, rfl⟩ := hs.wait move
      obtain ⟨_, tail, rfl, ⟨c, rfl, hset⟩, -⟩ := hw
      have := hc c (by rw [hrest]; rfl)
      rw [consume?, hs.1] at this
      simp [hset] at this
  | @consume place thread next c rest result move hrest hc h ih =>
    intro nodes goals hs
    rcases nodes with _ | ⟨node, nodes⟩
    · exact .nil (.consume move hrest hc h) hs
    · obtain ⟨set, rfl⟩ := hs.wait move
      obtain ⟨hset, rfl, hs'⟩ := hs.consume hc
      have key := ih nodes goals hs'
      constructor
      · intro found hf
        obtain ⟨word, after, hr, hw, hy⟩ := key.some_of found hf
        refine ⟨c :: word, after, by rw [hrest]; exact congrArg _ hr,
          ⟨[c], word, rfl, ⟨c, rfl, hset⟩, hw⟩, ?_⟩
        rw [Cursor.behind, byteLength, ← Nat.add_assoc]
        exact hy
      · rintro hf word after hr ⟨_, tail, rfl, ⟨d, rfl, -⟩, hw⟩
        obtain ⟨rfl, rfl⟩ := List.cons.inj (hrest.symm.trans hr)
        have := key.none_of hf tail after rfl hw
        rw [Cursor.behind, List.singleton_append, byteLength, ← Nat.add_assoc]
        exact this
  | first move h ih =>
    intro nodes goals hs
    rcases nodes with _ | ⟨node, nodes⟩
    · exact .nil (.first move h) hs
    · obtain ⟨new, new', hstep, ⟨rfl, hs1⟩, -⟩ := hs.fork move
      refine ⟨?_, by simp⟩
      intro found hf
      obtain ⟨word, rest, hrest, hw, hy⟩ := (ih _ goals hs1).some_of found hf
      rw [hrest] at hstep
      refine ⟨word, rest, hrest, ?_, hy⟩
      rw [spellsAll_append] at hw
      exact (Node.spells_of_fork hstep).2 (Or.inl hw)
  | second move h h' ih ih' =>
    intro nodes goals hs
    rcases nodes with _ | ⟨node, nodes⟩
    · exact .nil (.second move h h') hs
    · obtain ⟨new, new', hstep, ⟨rfl, hs1⟩, rfl, hs2⟩ := hs.fork move
      constructor
      · intro found hf
        obtain ⟨word, rest, hrest, hw, hy⟩ := (ih' _ goals hs2).some_of found hf
        rw [hrest] at hstep
        refine ⟨word, rest, hrest, ?_, hy⟩
        rw [spellsAll_append] at hw
        exact (Node.spells_of_fork hstep).2 (Or.inr hw)
      · intro hf word rest hrest hw
        rw [hrest] at hstep
        rcases (Node.spells_of_fork hstep).1 hw with hw | hw <;> rw [← spellsAll_append] at hw
        · exact (ih _ goals hs1).none_of rfl word rest hrest hw
        · exact (ih' _ goals hs2).none_of hf word rest hrest hw

/-- The goal that ends a group, if one is open. -/
def ending : Option (String × Nat) → List Goal
  | none => []
  | some (name, start) => [.close name start]

/-- The match of a thread that is done at an offset, with the group closed there. -/
def ended (thread : Thread) (group : Option (String × Nat)) (stop : Nat) : Match :=
  match group with
  | none => ⟨⟨thread.start, stop⟩, thread.captures⟩
  | some (name, start) => ⟨⟨thread.start, stop⟩, (name, ⟨start, stop⟩) :: thread.captures⟩

@[simp] theorem ended_withGoals (thread : Thread) (goals : List Goal)
    (group : Option (String × Nat)) (stop : Nat) :
    (thread.withGoals goals).ended group stop = thread.ended group stop := rfl

theorem Starts.withGoals_nil {thread : Thread} {goals : List Goal} (h : thread.Starts [] goals) :
    thread.withGoals goals = thread := by
  obtain ⟨start, captures, g⟩ := thread
  obtain rfl : g = goals := h.1
  rfl

theorem yields_ending (place : Cursor) (thread : Thread) (group : Option (String × Nat)) :
    (thread.withGoals (ending group)).Yields place (some (thread.ended group place.offset)) := by
  rcases group with _ | ⟨name, start⟩
  · exact .done rfl
  · exact .go rfl (.done rfl)

/-- What nodes without groups pick at the beginning of a text: any thread that
runs them picks this word, whatever its offset and its records. -/
structure Picks (before : Option Char) (rest : List Char) (nodes : List Node)
    (picked : Option (List Char)) : Prop where
  prefix_of : ∀ word, picked = some word → word <+: rest
  yields : ∀ (offset : Nat) (thread : Thread) (group : Option (String × Nat)),
    thread.Starts nodes (ending group) → thread.Yields ⟨before, offset, rest⟩
      (picked.map fun word => thread.ended group (offset + byteLength word))

namespace Picks

variable {before : Option Char} {rest : List Char} {node : Node} {nodes : List Node}
  {picked picked' : Option (List Char)} {offset label : Nat} {new new' : List Goal}

theorem nil (before : Option Char) (rest : List Char) : Picks before rest [] (some []) := by
  refine ⟨by simp, fun offset thread group hs => ?_⟩
  rw [← hs.withGoals_nil]
  exact yields_ending ⟨before, offset, rest⟩ thread group

/-- A step of the first node. -/
theorem of_go (hstep : node.step before rest.head? offset = .go new)
    (h : Picks before rest (nodesOf new ++ nodes) picked) :
    Picks before rest (node :: nodes) picked := by
  refine ⟨h.prefix_of, fun offset' thread group hs => ?_⟩
  have hfree := hs.2 node List.mem_cons_self
  have hstep' := (hfree.step_offset offset').trans hstep
  have key := h.yields offset' _ group (hs.append (hfree.of_go hstep))
  refine .go ?_ key
  rw [hs.moveAt_eq]
  dsimp only
  rw [hstep']

theorem of_fork (hstep : node.step before rest.head? offset = .fork label new new')
    (h : Picks before rest (nodesOf new ++ nodes) picked)
    (h' : picked = none → Picks before rest (nodesOf new' ++ nodes) picked') :
    Picks before rest (node :: nodes) (picked <|> picked') := by
  have hmove : ∀ (offset' : Nat) (thread : Thread) (group : Option (String × Nat)),
      thread.Starts (node :: nodes) (ending group) →
      thread.moveAt ⟨before, offset', rest⟩ = .fork label
        (thread.withGoals (new ++ (nodes.map .run ++ ending group)))
        (thread.withGoals (new' ++ (nodes.map .run ++ ending group))) := by
    intro offset' thread group hs
    have hstep' := ((hs.2 node List.mem_cons_self).step_offset offset').trans hstep
    rw [hs.moveAt_eq]
    dsimp only
    rw [hstep']
  cases picked with
  | some word =>
    refine ⟨h.prefix_of, fun offset' thread group hs => ?_⟩
    have hfree := (hs.2 node List.mem_cons_self).of_fork hstep
    exact .first (hmove offset' thread group hs)
      (h.yields offset' _ group (hs.append (hfree new (by simp))))
  | none =>
    refine ⟨(h' rfl).prefix_of, fun offset' thread group hs => ?_⟩
    have hfree := (hs.2 node List.mem_cons_self).of_fork hstep
    exact .second (hmove offset' thread group hs)
      (h.yields offset' _ group (hs.append (hfree new (by simp))))
      ((h' rfl).yields offset' _ group (hs.append (hfree new' (by simp))))

theorem of_consume {set : CharSet} {c : Char} (hset : set.contains c = true)
    (h : Picks (some c) rest nodes picked) :
    Picks before (c :: rest) (.one set :: nodes) (picked.map (c :: ·)) := by
  constructor
  · intro word hw
    obtain ⟨tail, ht, rfl⟩ := Option.map_eq_some_iff.1 hw
    exact List.cons_prefix_cons.2 ⟨rfl, h.prefix_of tail ht⟩
  · intro offset' thread group hs
    have hnext : thread.consume? c =
        some (thread.withGoals (nodes.map .run ++ ending group)) := by
      rw [consume?, hs.1]
      exact if_pos hset
    have key := h.yields (offset' + c.utf8Size) _ group (hs.consume hnext).2.2
    refine .consume (by rw [hs.moveAt_eq]; rfl) rfl hnext ?_
    simpa [Option.map_map, Function.comp_def, byteLength, Nat.add_assoc] using key

theorem of_dead (hstep : node.step before rest.head? offset = .dead) :
    Picks before rest (node :: nodes) none := by
  refine ⟨by simp, fun offset' thread group hs => .dead ?_⟩
  have hstep' := ((hs.2 node List.mem_cons_self).step_offset offset').trans hstep
  rw [hs.moveAt_eq]
  dsimp only
  rw [hstep']

theorem of_stuck {set : CharSet} (hset : ∀ c ∈ rest.head?, set.contains c = false) :
    Picks before rest (.one set :: nodes) none := by
  refine ⟨by simp, fun offset' thread group hs => .stuck (by rw [hs.moveAt_eq]; rfl) ?_⟩
  intro c hc
  rw [consume?, hs.1]
  simp [hset c hc]

end Picks

/-- Following a thread that runs nodes without groups picks a word for them. -/
theorem Yields.exists_picks {place : Cursor} {thread : Thread} {result : Option Match}
    (h : thread.Yields place result) : ∀ (nodes : List Node) (group : Option (String × Nat)),
    thread.Starts nodes (ending group) →
    ∃ picked, Picks place.before place.rest nodes picked ∧
      result = picked.map fun word => thread.ended group (place.offset + byteLength word) := by
  intro nodes group hs
  suffices hp : ∃ picked, Picks place.before place.rest nodes picked by
    obtain ⟨picked, hp⟩ := hp
    exact ⟨picked, hp, h.unique (hp.yields place.offset thread group hs)⟩
  induction h generalizing nodes with
  | @done place thread move =>
    rcases nodes with _ | ⟨node, nodes⟩
    · exact ⟨_, .nil _ _⟩
    · rw [hs.moveAt_eq] at move
      split at move <;> simp at move
  | @dead place thread move =>
    rcases nodes with _ | ⟨node, nodes⟩
    · exact ⟨_, .nil _ _⟩
    · exact ⟨none, .of_dead (hs.dead move)⟩
  | @go place thread next result move h ih =>
    rcases nodes with _ | ⟨node, nodes⟩
    · exact ⟨_, .nil _ _⟩
    · obtain ⟨new, hstep, rfl, hs'⟩ := hs.go move
      obtain ⟨picked, hp⟩ := ih _ hs'
      exact ⟨picked, hp.of_go hstep⟩
  | @stuck place thread move hc =>
    rcases nodes with _ | ⟨node, nodes⟩
    · exact ⟨_, .nil _ _⟩
    · obtain ⟨set, rfl⟩ := hs.wait move
      refine ⟨none, .of_stuck fun c hm => ?_⟩
      have := hc c hm
      rw [consume?, hs.1] at this
      simpa using this
  | @consume place thread next c rest result move hrest hc h ih =>
    rcases nodes with _ | ⟨node, nodes⟩
    · exact ⟨_, .nil _ _⟩
    · obtain ⟨set, rfl⟩ := hs.wait move
      obtain ⟨hset, rfl, hs'⟩ := hs.consume hc
      obtain ⟨picked, hp⟩ := ih nodes hs'
      exact ⟨_, hrest ▸ hp.of_consume hset⟩
  | @first place thread first second label found move h ih =>
    rcases nodes with _ | ⟨node, nodes⟩
    · exact ⟨_, .nil _ _⟩
    · obtain ⟨new, new', hstep, ⟨rfl, hs1⟩, -⟩ := hs.fork move
      obtain ⟨_ | word, hp⟩ := ih _ hs1
      · simpa using h.unique (hp.yields place.offset _ group hs1)
      · exact ⟨_, hp.of_fork hstep (fun he => by simp at he : some word = none → Picks _ _ _ none)⟩
  | @second place thread first second label result move h h' ih ih' =>
    rcases nodes with _ | ⟨node, nodes⟩
    · exact ⟨_, .nil _ _⟩
    · obtain ⟨new, new', hstep, ⟨rfl, hs1⟩, rfl, hs2⟩ := hs.fork move
      obtain ⟨picked, hp⟩ := ih _ hs1
      obtain ⟨picked', hp'⟩ := ih' _ hs2
      exact ⟨_, hp.of_fork hstep fun _ => hp'⟩

end Thread

/-! ### Characters that are never asked for -/

/-- A node that puts no condition on a place and never asks for a character. -/
structure Node.Avoids (c : Char) (node : Node) : Prop where
  set : ∀ set, Leaf.set set ∈ node.leaves → set.contains c = false
  condition : ∀ condition, Leaf.condition condition ∉ node.leaves

theorem Node.Avoids.mono {c : Char} {node other : Node} (h : node.Avoids c)
    (hs : other.leaves ⊆ node.leaves) : other.Avoids c :=
  ⟨fun set hm => h.set set (hs hm), fun condition hm => h.condition condition (hs hm)⟩

/-- The characters of a word are ones that the node asks for. -/
theorem Node.exists_set_of_spells {node : Node} {before : Option Char} {word after : List Char}
    (h : node.Spells before word after) : ∀ c ∈ word, ∃ set, Leaf.set set ∈ node.leaves ∧
      set.contains c = true := by
  have hpower : ∀ (language : Language) (ok : Char → Prop),
      (∀ before word after, language before word after → ∀ c ∈ word, ok c) →
      ∀ n before word after, language.power n before word after → ∀ c ∈ word, ok c := by
    intro language ok hok n
    induction n with
    | zero =>
      rintro before _ after rfl
      simp
    | succ n ih =>
      rintro before _ after ⟨u, v, rfl, h1, h2⟩ c hc
      rcases List.mem_append.1 hc with hc | hc
      · exact hok _ _ _ h1 c hc
      · exact ih _ _ _ h2 c hc
  induction node generalizing before word after with
  | empty =>
    obtain rfl : word = [] := h
    simp
  | one set =>
    obtain ⟨c, rfl, hc⟩ := h
    simpa [leaves] using hc
  | assert condition =>
    obtain rfl := h.1
    simp
  | group name body ih =>
    intro c hc
    obtain ⟨set, hs, hcontains⟩ := ih h c hc
    exact ⟨set, List.mem_cons_of_mem _ hs, hcontains⟩
  | seq a b iha ihb =>
    obtain ⟨u, v, rfl, h1, h2⟩ := h
    intro c hc
    rcases List.mem_append.1 hc with hc | hc
    · obtain ⟨set, hs, hcontains⟩ := iha h1 c hc
      exact ⟨set, List.mem_append_left _ hs, hcontains⟩
    · obtain ⟨set, hs, hcontains⟩ := ihb h2 c hc
      exact ⟨set, List.mem_append_right _ hs, hcontains⟩
  | choice label a b iha ihb =>
    intro c hc
    rcases h with h | h
    · obtain ⟨set, hs, hcontains⟩ := iha h c hc
      exact ⟨set, List.mem_append_left _ hs, hcontains⟩
    · obtain ⟨set, hs, hcontains⟩ := ihb h c hc
      exact ⟨set, List.mem_append_right _ hs, hcontains⟩
  | again label greedy body ih =>
    obtain ⟨n, h⟩ := h
    exact hpower body.Spells _ (fun _ _ _ => ih) n _ _ _ h
  | atLeastOnce label greedy body ih =>
    obtain ⟨n, h⟩ := h
    exact hpower body.Spells _ (fun _ _ _ => ih) (n + 1) _ _ _ h

theorem Node.Avoids.not_mem {c : Char} {node : Node} (h : node.Avoids c) {before : Option Char}
    {word after : List Char} (hw : node.Spells before word after) : c ∉ word := fun hm => by
  obtain ⟨set, hs, hc⟩ := Node.exists_set_of_spells hw c hm
  rw [h.set set hs] at hc
  simp at hc

theorem not_mem_of_spellsAll {c : Char} {nodes : List Node} (h : ∀ n ∈ nodes, n.Avoids c)
    {before : Option Char} {word after : List Char} (hw : spellsAll nodes before word after) :
    c ∉ word := by
  induction nodes generalizing before word with
  | nil =>
    obtain rfl : word = [] := hw
    simp
  | cons node nodes ih =>
    obtain ⟨u, v, rfl, h1, h2⟩ := hw
    rw [List.mem_append, not_or]
    exact ⟨(h node List.mem_cons_self).not_mem h1,
      ih (fun n hn => h n (List.mem_cons_of_mem _ hn)) h2⟩

/-- Texts that are the same, or the same up to a character that both have. -/
inductive UpTo (c : Char) : List Char → List Char → Prop
  | nil : UpTo c [] []
  | stop (tail tail' : List Char) : UpTo c (c :: tail) (c :: tail')
  | cons (d : Char) {rest rest' : List Char} : UpTo c rest rest' → UpTo c (d :: rest) (d :: rest')

namespace UpTo

variable {c : Char} {rest rest' : List Char}

theorem refl (c : Char) : ∀ text : List Char, UpTo c text text
  | [] => .nil
  | d :: text => .cons d (refl c text)

theorem append (c : Char) (tail tail' : List Char) :
    ∀ u : List Char, UpTo c (u ++ c :: tail) (u ++ c :: tail')
  | [] => .stop tail tail'
  | d :: u => .cons d (append c tail tail' u)

theorem head? (h : UpTo c rest rest') : rest'.head? = rest.head? := by
  cases h <;> rfl

/-- A word without the character begins both texts or neither. -/
theorem prefix_of (h : UpTo c rest rest') {word : List Char} (hc : c ∉ word)
    (hw : word <+: rest) : word <+: rest' := by
  induction h generalizing word with
  | nil => exact hw
  | stop tail tail' =>
    cases word with
    | nil => exact List.nil_prefix
    | cons d word =>
      obtain ⟨rfl, -⟩ := List.cons_prefix_cons.1 hw
      simp at hc
  | cons d h ih =>
    cases word with
    | nil => exact List.nil_prefix
    | cons e word =>
      obtain ⟨rfl, htail⟩ := List.cons_prefix_cons.1 hw
      rw [List.mem_cons, not_or] at hc
      exact List.cons_prefix_cons.2 ⟨rfl, ih hc.2 htail⟩

end UpTo

namespace Thread

variable {place : Cursor} {thread next first second : Thread} {c : Char} {result : Option Match}

/-- All nodes of the thread avoid a character. -/
def Avoids (c : Char) (thread : Thread) : Prop :=
  ∀ node ∈ thread.nodes, node.Avoids c

theorem Avoids.moveAt_eq (h : thread.Avoids c) (before' : Option Char) (rest' : List Char) :
    thread.moveAt ⟨before', place.offset, rest'⟩ = thread.moveAt place := by
  have hstep : ∀ node goals, thread.goals = .run node :: goals →
      node.step before' rest'.head? place.offset =
        node.step place.before place.rest.head? place.offset := by
    intro node goals hg
    cases node with
    | assert condition =>
      have := (h (.assert condition) (by rw [nodes, hg]; exact List.mem_cons_self)).condition
        condition
      exact absurd List.mem_cons_self this
    | _ => rfl
  rw [moveAt, moveAt, move, move]
  split
  · rfl
  · rfl
  · next node goals hg => rw [hstep node goals hg]

theorem Avoids.of_append (h : thread.Avoids c) {node : Node} {goals : List Goal}
    (hg : thread.goals = .run node :: goals) (new : List Goal)
    (hn : ∀ n ∈ nodesOf new, n.leaves ⊆ node.leaves) : (thread.withGoals (new ++ goals)).Avoids c := by
  intro n hm
  rw [nodes, withGoals, nodesOf_append, List.mem_append] at hm
  rcases hm with hm | hm
  · exact (h node (by rw [nodes, hg]; exact List.mem_cons_self)).mono (hn n hm)
  · exact h n (by rw [nodes, hg]; exact List.mem_cons_of_mem _ hm)

theorem Avoids.go (h : thread.Avoids c) (hm : thread.moveAt place = .go next) : next.Avoids c := by
  rcases moveAt_go hm with ⟨name, start, goals, hg, rfl⟩ | ⟨node, goals, new, hg, hs, rfl⟩
  · intro n hn
    exact h n (by rw [nodes, hg]; exact hn)
  · exact h.of_append hg new (Node.leaves_of_go hs)

theorem Avoids.fork {label : Nat} (h : thread.Avoids c)
    (hm : thread.moveAt place = .fork label first second) : first.Avoids c ∧ second.Avoids c := by
  obtain ⟨node, goals, new, new', hg, hs, rfl, rfl⟩ := moveAt_fork hm
  have hleaves := Node.leaves_of_fork hs
  exact ⟨h.of_append hg new (hleaves new (by simp)), h.of_append hg new' (hleaves new' (by simp))⟩

theorem Avoids.consume {d : Char} (h : thread.Avoids c) (hc : thread.consume? d = some next) :
    next.Avoids c ∧ d ≠ c := by
  obtain ⟨set, goals, hg, hset, rfl⟩ := consume?_eq_some hc
  refine ⟨h.of_append hg [] (by simp), ?_⟩
  rintro rfl
  have := (h (.one set) (by rw [nodes, hg]; exact List.mem_cons_self)).set set List.mem_cons_self
  simp [hset] at this

/-- What a thread leads to depends neither on the text behind a character that it
never asks for nor on what stands before its place. -/
theorem Yields.upTo (h : thread.Yields place result) : ∀ (before' : Option Char)
    (rest' : List Char), UpTo c place.rest rest' → thread.Avoids c →
    thread.Yields ⟨before', place.offset, rest'⟩ result := by
  induction h with
  | done move =>
    exact fun before' rest' hrest ha => .done ((ha.moveAt_eq before' rest').trans move)
  | dead move =>
    exact fun before' rest' hrest ha => .dead ((ha.moveAt_eq before' rest').trans move)
  | go move h ih =>
    exact fun before' rest' hrest ha =>
      .go ((ha.moveAt_eq before' rest').trans move) (ih before' rest' hrest (ha.go move))
  | stuck move hc =>
    exact fun before' rest' hrest ha =>
      .stuck ((ha.moveAt_eq before' rest').trans move) fun d hd => hc d (hrest.head? ▸ hd)
  | consume move hr hc h ih =>
    intro before' rest' hrest ha
    obtain ⟨hnext, hne⟩ := ha.consume hc
    have hmove := (ha.moveAt_eq before' rest').trans move
    rw [hr] at hrest
    cases hrest with
    | stop tail tail' => exact absurd rfl hne
    | cons d hrest => exact .consume hmove rfl hc (ih _ _ hrest hnext)
  | first move h ih =>
    exact fun before' rest' hrest ha =>
      .first ((ha.moveAt_eq before' rest').trans move) (ih before' rest' hrest (ha.fork move).1)
  | second move h h' ih ih' =>
    exact fun before' rest' hrest ha =>
      .second ((ha.moveAt_eq before' rest').trans move) (ih before' rest' hrest (ha.fork move).1)
        (ih' before' rest' hrest (ha.fork move).2)

end Thread

/-! ### What nodes pick -/

namespace Thread.Picks

variable {before : Option Char} {rest : List Char} {nodes : List Node}
  {picked picked' : Option (List Char)}

/-- A thread that does nothing but run nodes. -/
def plain (nodes : List Node) : Thread :=
  ⟨0, [], nodes.map .run⟩

theorem plain_starts (hfree : ∀ n ∈ nodes, n.GroupFree) :
    (plain nodes).Starts nodes (ending none) :=
  ⟨(List.append_nil _).symm, hfree⟩

theorem plain_yields (h : Picks before rest nodes picked) (hfree : ∀ n ∈ nodes, n.GroupFree) :
    (plain nodes).Yields ⟨before, 0, rest⟩
      (picked.map fun word => ⟨⟨0, 0 + byteLength word⟩, []⟩) :=
  h.yields 0 (plain nodes) none (plain_starts hfree)

theorem eq_of_byteLength {u v : List Char} (hu : u <+: rest) (hv : v <+: rest)
    (h : byteLength u = byteLength v) : u = v := by
  obtain ⟨a, rfl⟩ := hu
  obtain ⟨b, hb⟩ := hv
  exact (append_inj_of_byteLength hb.symm h).1

/-- Nodes pick one word only. -/
theorem unique (h : Picks before rest nodes picked) (h' : Picks before rest nodes picked')
    (hfree : ∀ n ∈ nodes, n.GroupFree) : picked = picked' := by
  have hy := (h.plain_yields hfree).unique (h'.plain_yields hfree)
  cases picked with
  | none => cases picked' <;> simp_all
  | some u =>
    cases picked' with
    | none => simp at hy
    | some v =>
      rw [eq_of_byteLength (h.prefix_of u rfl) (h'.prefix_of v rfl) (by simpa using hy)]

/-- What is picked is a word of the nodes. -/
theorem spells {word : List Char} (h : Picks before rest nodes (some word))
    (hfree : ∀ n ∈ nodes, n.GroupFree) :
    ∃ after, rest = word ++ after ∧ spellsAll nodes before word after := by
  obtain ⟨u, after, hrest, hs, hy⟩ := ((h.plain_yields hfree).split nodes [] (plain_starts hfree)).some_of _
    rfl
  have hdone : ∀ place, ((plain nodes).withGoals []).moveAt place = .done := fun _ => rfl
  have hend := (yields_done (hdone _)).1 hy
  have hu : u = word := by
    refine eq_of_byteLength ⟨after, hrest.symm⟩ (h.prefix_of word rfl) ?_
    have := congrArg (fun m : Match => m.span.stop) (Option.some.inj hend)
    simpa [Cursor.behind] using this.symm
  subst hu
  exact ⟨after, hrest, hs⟩

/-- What is picked depends neither on the text behind a character that the nodes
never ask for nor on what stands before it. -/
theorem upTo {c : Char} {rest' : List Char} (h : Picks before rest nodes picked)
    (hfree : ∀ n ∈ nodes, n.GroupFree) (ha : ∀ n ∈ nodes, n.Avoids c)
    (hrest : UpTo c rest rest') (before' : Option Char) : Picks before' rest' nodes picked := by
  have hnodes : (plain nodes).nodes = nodes := by
    rw [Thread.nodes, plain, nodesOf, List.filterMap_map]
    exact List.filterMap_some
  have hy := (h.plain_yields hfree).upTo before' rest' hrest (by rw [Avoids, hnodes]; exact ha)
  obtain ⟨picked', h', hr⟩ := hy.exists_picks nodes none (plain_starts hfree)
  have hpicked : picked = picked' := by
    cases picked with
    | none => cases picked' <;> simp_all
    | some v =>
      cases picked' with
      | none => simp at hr
      | some w =>
        obtain ⟨after, -, hs⟩ := h.spells hfree
        have hv := hrest.prefix_of (not_mem_of_spellsAll ha hs) (h.prefix_of v rfl)
        have hstop := congrArg (fun m : Match => m.span.stop) (Option.some.inj hr)
        rw [eq_of_byteLength hv (h'.prefix_of w rfl) (by simpa [ended] using hstop)]
  exact hpicked ▸ h'

end Thread.Picks

/-! ### Declarations -/

/-- Nodes one after the other, as one node. -/
def Node.chain (nodes : List Node) (last : Node) : Node :=
  nodes.foldr .seq last

theorem Cursor.behind_behind (place : Cursor) (u v rest : List Char) :
    (place.behind u (v ++ rest)).behind v rest = place.behind (u ++ v) rest := by
  simp [behind, Nat.add_assoc]

theorem Cursor.between_behind (a u rest : List Char) :
    (between a (u ++ rest)).behind u rest = between (a ++ u) rest := by
  simp [between, behind]

/-- Matching a chain of nodes and then goals. -/
theorem Thread.Yields.chain {last : Node} {goals : List Goal} (nodes : List Node)
    (hfree : ∀ n ∈ nodes, n.GroupFree) :
    ∀ {place : Cursor} {result : Option Match} (thread : Thread),
    thread.goals = .run (Node.chain nodes last) :: goals → thread.Yields place result →
      Splits place thread nodes (.run last :: goals) result := by
  induction nodes with
  | nil => exact fun _ hg h => .nil h ⟨hg, hfree⟩
  | cons node nodes ih =>
    intro place result thread hg h
    set next := thread.withGoals (.run (Node.chain nodes last) :: goals)
    have hnodes : ∀ n ∈ nodes, n.GroupFree := fun n hn => hfree n (List.mem_cons_of_mem _ hn)
    have hmove : thread.moveAt place = .go (thread.withGoals
        ([.run node, .run (Node.chain nodes last)] ++ goals)) := by
      rw [moveAt, move, hg]
      rfl
    have hstart : (thread.withGoals ([.run node, .run (Node.chain nodes last)] ++ goals)).Starts
        [node] (.run (Node.chain nodes last) :: goals) :=
      ⟨rfl, by simpa using hfree node List.mem_cons_self⟩
    have key := ((yields_go hmove).1 h).split _ _ hstart
    constructor
    · intro found hf
      obtain ⟨u, rest, hrest, hu, hy⟩ := key.some_of found hf
      have hrest' := ih hnodes next rfl hy
      obtain ⟨v, after, hafter, hv, hy'⟩ := hrest'.some_of found rfl
      obtain rfl : rest = v ++ after := hafter
      rw [spellsAll, spellsAll, seq_nothing] at hu
      refine ⟨u ++ v, after, by simpa using hrest, ⟨u, v, rfl, hu, hv⟩, ?_⟩
      rw [← Cursor.behind_behind]
      exact hy'
    · rintro hf _ after hrest ⟨u, v, rfl, hu, hv⟩
      have hy := key.none_of hf u (v ++ after) (by simpa using hrest)
        (by rwa [spellsAll, spellsAll, seq_nothing])
      have hrest' := ih hnodes next rfl hy
      have := hrest'.none_of rfl v after rfl hv
      rw [← Cursor.behind_behind]
      exact this

/-- A program that looks for a lead and records the value behind it. -/
structure Program.Declares (program : Program) (lead : List Node) (name : String) (value : Node) :
    Prop where
  root_eq : program.root = .chain lead (.group name value)
  lead_free : ∀ n ∈ lead, n.GroupFree
  value_free : value.GroupFree

namespace Program.Declares

open Thread

variable {program : Program} {lead : List Node} {name : String} {value : Node}
  {a rest : List Char}

/-- The thread behind a lead. -/
theorem value_starts (h : program.Declares lead name value) (start stop : Nat) :
    Starts ⟨start, [], [.run value, .close name stop]⟩ [value] (ending (some (name, stop))) :=
  ⟨rfl, by simpa using h.value_free⟩

/-- A match is a word of the lead and what the value picks behind it. -/
theorem yieldsAt (h : program.Declares lead name value) {found : Match}
    (hy : program.YieldsAt a rest (some found)) : ∃ front word after,
      rest = front ++ (word ++ after) ∧ spellsAll lead (endChar none a) front (word ++ after) ∧
      Picks (endChar none (a ++ front)) (word ++ after) [value] (some word) ∧
      found = ⟨⟨byteLength a, byteLength (a ++ (front ++ word))⟩,
        [(name, ⟨byteLength (a ++ front), byteLength (a ++ (front ++ word))⟩)]⟩ := by
  obtain ⟨front, tail, hrest, hs, hy'⟩ := (Yields.chain lead h.lead_free _
    (by rw [Thread.begin, h.root_eq]) hy).some_of found rfl
  obtain rfl : rest = front ++ tail := hrest
  rw [Cursor.between_behind] at hy'
  have hvalue := (yields_go (by rfl)).1 hy'
  obtain ⟨_ | word, hp, hr⟩ := hvalue.exists_picks [value] _
    (h.value_starts (byteLength a) (byteLength (a ++ front)))
  · simp at hr
  · obtain ⟨after, htail⟩ := hp.prefix_of word rfl
    obtain rfl : word ++ after = tail := htail
    refine ⟨front, word, after, rfl, hs, hp, ?_⟩
    rw [Option.some.inj hr]
    simp [ended, Cursor.between, Thread.begin, Thread.withGoals, Nat.add_assoc]

/-- Behind a word of the lead, a word that the value picks makes a match. -/
theorem exists_yieldsAt (h : program.Declares lead name value) (hr : program.Regular)
    {front word : List Char} (hs : spellsAll lead (endChar none a) front rest)
    (hp : Picks (endChar none (a ++ front)) rest [value] (some word)) :
    ∃ found, program.YieldsAt a (front ++ rest) (some found) := by
  obtain ⟨_ | found, hy⟩ := exists_yields _ _ (.between a (front ++ rest))
    (Thread.begin program (byteLength a)) rfl rfl (hr.begin_progresses _)
  · have hy' := (Yields.chain lead h.lead_free _ (by rw [Thread.begin, h.root_eq]) hy).none_of rfl
      front rest rfl hs
    rw [Cursor.between_behind] at hy'
    have hvalue := (yields_go (by rfl)).1 hy'
    have := hvalue.unique (hp.yields _ _ _
      (h.value_starts (byteLength a) (byteLength (a ++ front))))
    simp at this
  · exact ⟨found, hy⟩

end Program.Declares

/-! ### Patterns of declarations -/

namespace Pattern

/-- The words of patterns one after the other. -/
def spellsSeq : List Pattern → Language
  | [] => nothing
  | pattern :: patterns => pattern.Spells.seq (spellsSeq patterns)

theorem seqOf_cons (pattern : Pattern) {patterns : List Pattern} (h : patterns ≠ []) :
    seqOf (pattern :: patterns) = seq pattern (seqOf patterns) := by
  cases patterns with
  | nil => exact absurd rfl h
  | cons => rfl

/-- A pattern without groups. -/
def GroupFree (pattern : Pattern) : Prop :=
  ∀ name, Leaf.name name ∉ pattern.leaves

/-- A lead and a value, written as one pattern. -/
def declaration (lead : List Pattern) (name : String) (value : Pattern) : Pattern :=
  seqOf (lead ++ [group name value])

/-- The program of a lead and a value. -/
theorem exists_declares (lead : List Pattern) (name : String) (value : Pattern)
    (hlead : ∀ p ∈ lead, p.GroupFree) (hvalue : value.GroupFree) :
    ∃ nodes node, (declaration lead name value).program.Declares nodes name node ∧
      spellsAll nodes = spellsSeq lead ∧ node.Spells = value.Spells ∧
      node.leaves ⊆ value.leaves := by
  have key : ∀ n, ∃ nodes node,
      ((declaration lead name value).build.run n).1 = .chain nodes (.group name node) ∧
      (∀ x ∈ nodes, x.GroupFree) ∧ spellsAll nodes = spellsSeq lead ∧
      node.Spells = value.Spells ∧ node.leaves ⊆ value.leaves := by
    induction lead with
    | nil =>
      exact fun n => ⟨[], (value.build.run n).1, rfl, by simp, rfl, spells_build value n,
        leaves_build value n⟩
    | cons p lead ih =>
      intro n
      obtain ⟨nodes, node, hroot, hfree, hs, hv, hl⟩ :=
        ih (fun q hq => hlead q (List.mem_cons_of_mem _ hq)) (p.build.run n).2
      refine ⟨(p.build.run n).1 :: nodes, node, ?_, ?_, ?_, hv, hl⟩
      · rw [declaration, List.cons_append, seqOf_cons p (by simp), run_seq]
        exact congrArg _ hroot
      · intro x hx
        rcases List.mem_cons.1 hx with rfl | hx
        · exact fun name hm => hlead p List.mem_cons_self name (leaves_build p n hm)
        · exact hfree x hx
      · rw [spellsAll, spellsSeq, hs, spells_build p n]
  obtain ⟨nodes, node, hroot, hfree, hs, hv, hl⟩ := key 0
  exact ⟨nodes, node, ⟨hroot, hfree, fun other hm => hvalue other (hl hm)⟩, hs, hv, hl⟩

end Pattern

end StyleTokens

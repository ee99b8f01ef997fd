/-
Settling threads keeps the match that they lead to.

`settle` follows many threads side by side and passes each label once.  A thread
that meets a label again is dropped, and rightly so: what it has to do is what
the thread before had to do there, and that one comes first.  So the first match
among the threads is still the first one among those that wait.

* `Node.sites` — the labels of a node with what is left to do at each;
* `Thread.Fit` — what holds of every thread of a sound program;
* `Leads` — the first match that threads lead to, in their order;
* `Covered` — a label that was passed leads nowhere that is not already covered;
* `settle_leads` — settling keeps the first match, and its fuel suffices.
-/
import StyleTokens.Proofs.Pattern.Preference

namespace StyleTokens

/-! ### Labels -/

namespace Node

/-- The labels of a node with the nodes that are left to run at each, when
`others` follow. -/
def sites : Node → (others : List Node) → List (Nat × List Node)
  | empty, _ | one _, _ | assert _, _ => []
  | group _ body, others => body.sites others
  | seq a b, others => a.sites (b :: others) ++ b.sites others
  | choice label a b, others =>
    (label, choice label a b :: others) :: (a.sites others ++ b.sites others)
  | again label greedy body, others | atLeastOnce label greedy body, others =>
    (label, again label greedy body :: others) ::
      body.sites (again label greedy body :: others)

theorem map_fst_sites (node : Node) (others : List Node) :
    (node.sites others).map Prod.fst = node.labels := by
  induction node generalizing others <;> simp_all [sites, labels]

end Node

/-- The labels of nodes that are run one after the other. -/
def sitesAll : List Node → List (Nat × List Node)
  | [] => []
  | node :: nodes => node.sites nodes ++ sitesAll nodes

theorem Node.sites_of_go {before after : Option Char} {offset : Nat} {node : Node}
    {goals : List Goal} (h : node.step before after offset = .go goals) (others : List Node) :
    sitesAll (nodesOf goals ++ others) ⊆ sitesAll (node :: others) := by
  cases step_eq_go_iff.1 h <;> simp [sitesAll, sites]

theorem Node.sites_of_fork {before after : Option Char} {offset label : Nat} {node : Node}
    {first second : List Goal} (h : node.step before after offset = .fork label first second)
    (others : List Node) : (label, node :: others) ∈ sitesAll (node :: others) ∧
      ∀ goals ∈ [first, second], sitesAll (nodesOf goals ++ others) ⊆ sitesAll (node :: others) := by
  cases step_eq_fork_iff.1 h with
  | choice =>
    refine ⟨by simp [sitesAll, sites], fun goals hg x hx => ?_⟩
    simp only [List.mem_cons, List.not_mem_nil, or_false] at hg
    rcases hg with rfl | rfl <;> simp [sitesAll, sites] at hx ⊢ <;> tauto
  | greedy => simp [sitesAll, sites]
  | lazy => simp [sitesAll, sites]

/-! ### Weights -/

namespace Goal

/-- The steps that a goal takes until the next label. -/
def weight : Goal → Nat
  | run node => node.weight
  | close _ _ => 1

/-- The steps that a goal takes between any two labels, or more. -/
def load : Goal → Nat
  | run node => node.load
  | close _ _ => 1

end Goal

/-- The steps that goals take until the next label. -/
def weightOf : List Goal → Nat
  | [] => 0
  | goal :: goals => goal.weight + weightOf goals

/-- From no goal on, more than `most` steps are taken between two labels. -/
def Bounded (most : Nat) : List Goal → Prop
  | [] => True
  | goal :: goals => goal.load + weightOf goals ≤ most ∧ Bounded most goals

theorem Bounded.weight_le {most : Nat} {goals : List Goal} (h : Bounded most goals) :
    weightOf goals ≤ most := by
  cases goals with
  | nil => exact Nat.zero_le _
  | cons goal goals =>
    have hle : goal.weight ≤ goal.load := by
      cases goal with
      | run node => exact node.weight_le_load
      | close name start => exact le_rfl
    have := h.1
    rw [weightOf]
    omega

theorem Node.weight_of_go {before after : Option Char} {offset most : Nat} {node : Node}
    {goals others : List Goal} (hb : Bounded most (.run node :: others))
    (h : node.step before after offset = .go goals) :
    weightOf (goals ++ others) < weightOf (.run node :: others) ∧
      Bounded most (goals ++ others) := by
  obtain ⟨h1, h2⟩ := hb
  cases step_eq_go_iff.1 h with
  | empty => simp [weightOf, Goal.weight, weight, h2]
  | assert _ => simp [weightOf, Goal.weight, weight, h2]
  | @group _ body =>
    have := body.weight_le_load
    simp only [Goal.load, load] at h1
    simp only [weightOf, Bounded, Goal.weight, Goal.load, weight, List.cons_append,
      List.nil_append]
    exact ⟨by omega, by omega, by omega, h2⟩
  | @seq a b =>
    have := a.weight_le_load
    have := b.weight_le_load
    simp only [Goal.load, load] at h1
    simp only [weightOf, Bounded, Goal.weight, Goal.load, weight, List.cons_append,
      List.nil_append]
    exact ⟨by omega, by omega, by omega, h2⟩
  | atLeastOnce =>
    simp only [Goal.load, load] at h1
    simp only [weightOf, Bounded, Goal.weight, Goal.load, weight, load, List.cons_append,
      List.nil_append]
    exact ⟨by omega, by omega, by omega, h2⟩

theorem Node.weight_of_fork {before after : Option Char} {offset most label : Nat} {node : Node}
    {first second others : List Goal} (hb : Bounded most (.run node :: others))
    (h : node.step before after offset = .fork label first second) :
    ∀ goals ∈ [first, second], Bounded most (goals ++ others) := by
  obtain ⟨h1, h2⟩ := hb
  have hstar : ∀ (label : Nat) (greedy : Bool) (body : Node),
      (again label greedy body).load + weightOf others ≤ most →
      Bounded most ([.run body, .run (again label greedy body)] ++ others) := by
    intro label greedy body h1
    simp only [load] at h1
    simp only [weightOf, Bounded, Goal.weight, Goal.load, weight, load, List.cons_append,
      List.nil_append]
    exact ⟨by omega, by omega, h2⟩
  cases step_eq_fork_iff.1 h with
  | choice =>
    simp only [Goal.load, load] at h1
    simp only [List.mem_cons, List.not_mem_nil, or_false, forall_eq_or_imp, forall_eq, Bounded,
      Goal.load, List.cons_append, List.nil_append]
    exact ⟨⟨by omega, h2⟩, by omega, h2⟩
  | greedy => simpa [h2] using hstar _ _ _ h1
  | lazy => simpa [h2] using hstar _ _ _ h1

/-! ### Threads of a sound program -/

/-- What holds of every thread of a program with these sites: its starred bodies
consume characters, its labels are labels of the program with the same goals
behind them, and it takes at most `most` steps between two of them. -/
structure Thread.Fit (sites : List (Nat × List Node)) (most : Nat) (thread : Thread) : Prop where
  progresses : thread.Progresses
  within : sitesAll thread.nodes ⊆ sites
  bounded : Bounded most thread.goals

namespace Thread.Fit

variable {sites : List (Nat × List Node)} {most : Nat} {place : Cursor}
  {thread next first second : Thread} {label : Nat}

theorem of_append (h : thread.Fit sites most) {node : Node} {goals : List Goal}
    (hg : thread.goals = .run node :: goals) (new : List Goal)
    (hp : (thread.withGoals (new ++ goals)).Progresses)
    (hs : sitesAll (nodesOf new ++ nodesOf goals) ⊆ sitesAll (node :: nodesOf goals))
    (hb : Bounded most (new ++ goals)) : (thread.withGoals (new ++ goals)).Fit sites most := by
  refine ⟨hp, ?_, hb⟩
  have hw := h.within
  rw [nodes, hg, nodesOf_run] at hw
  rw [nodes, withGoals, nodesOf_append]
  exact List.Subset.trans hs hw

theorem go (h : thread.Fit sites most) (hm : thread.moveAt place = .go next) :
    next.Fit sites most ∧ weightOf next.goals < weightOf thread.goals := by
  have hp := (h.progresses.go hm).2.2
  have hb := h.bounded
  rcases moveAt_go hm with ⟨name, start, goals, hg, rfl⟩ | ⟨node, goals, new, hg, hs, rfl⟩
  · rw [hg] at hb
    refine ⟨⟨hp, ?_, hb.2⟩, ?_⟩
    · have := h.within
      rw [nodes, hg] at this
      exact this
    · rw [hg]
      simp [weightOf, Goal.weight, record, withGoals]
  · rw [hg] at hb ⊢
    obtain ⟨h1, h2⟩ := Node.weight_of_go hb hs
    exact ⟨h.of_append hg _ hp (Node.sites_of_go hs _) h2, h1⟩

theorem fork (h : thread.Fit sites most) (hm : thread.moveAt place = .fork label first second) :
    (label, thread.nodes) ∈ sites ∧ first.Fit sites most ∧ second.Fit sites most := by
  have hp := h.progresses.fork hm
  have hb := h.bounded
  obtain ⟨node, goals, new, new', hg, hs, rfl, rfl⟩ := moveAt_fork hm
  rw [hg] at hb
  obtain ⟨h1, h2⟩ := Node.sites_of_fork hs (nodesOf goals)
  have h3 := Node.weight_of_fork hb hs
  refine ⟨h.within ?_, ?_, ?_⟩
  · rw [nodes, hg]
    exact h1
  · exact h.of_append hg _ (hp _ (by simp)).2.2 (h2 new (by simp)) (h3 new (by simp))
  · exact h.of_append hg _ (hp _ (by simp)).2.2 (h2 new' (by simp)) (h3 new' (by simp))

theorem consume (h : thread.Fit sites most) {c : Char} (hc : thread.consume? c = some next) :
    next.Fit sites most := by
  have hp := h.progresses.consume hc
  have hb := h.bounded
  obtain ⟨set, goals, hg, -, rfl⟩ := consume?_eq_some hc
  rw [hg] at hb
  refine h.of_append hg [] hp ?_ hb.2
  simp [sitesAll]

end Thread.Fit

/-! ### The first match of many threads -/

/-- The first match that threads lead to from a place, in their order. -/
inductive Leads (place : Cursor) : List Thread → Option Match → Prop
  | nil : Leads place [] none
  | found {thread : Thread} {threads : List Thread} {found : Match}
    (h : thread.Yields place (some found)) : Leads place (thread :: threads) (some found)
  | next {thread : Thread} {threads : List Thread} {result : Option Match}
    (h : thread.Yields place none) (h' : Leads place threads result) :
    Leads place (thread :: threads) result

namespace Leads

variable {place : Cursor} {thread next first second : Thread} {front threads others : List Thread}
  {result : Option Match} {label : Nat}

theorem cons_iff : Leads place (thread :: threads) result ↔
    (∃ found, result = some found ∧ thread.Yields place (some found)) ∨
      thread.Yields place none ∧ Leads place threads result := by
  constructor
  · rintro (_ | h | ⟨h, h'⟩)
    · exact Or.inl ⟨_, rfl, h⟩
    · exact Or.inr ⟨h, h'⟩
  · rintro (⟨found, rfl, h⟩ | ⟨h, h'⟩)
    · exact .found h
    · exact .next h h'

theorem append_iff : Leads place (front ++ threads) result ↔
    (∃ found, result = some found ∧ Leads place front (some found)) ∨
      Leads place front none ∧ Leads place threads result := by
  induction front with
  | nil =>
    constructor
    · exact fun h => Or.inr ⟨.nil, h⟩
    · rintro (⟨found, -, h⟩ | ⟨-, h⟩)
      · cases h
      · exact h
  | cons thread front ih =>
    rw [List.cons_append, cons_iff, ih]
    constructor
    · rintro (⟨found, rfl, h⟩ | ⟨h, ⟨found, rfl, h'⟩ | ⟨h', h''⟩⟩)
      · exact Or.inl ⟨found, rfl, .found h⟩
      · exact Or.inl ⟨found, rfl, .next h h'⟩
      · exact Or.inr ⟨.next h h', h''⟩
    · rintro (⟨found, rfl, h⟩ | ⟨h, h'⟩)
      · rcases cons_iff.1 h with ⟨_, ⟨⟩, h⟩ | ⟨h, h'⟩
        · exact Or.inl ⟨found, rfl, h⟩
        · exact Or.inr ⟨h, Or.inl ⟨found, rfl, h'⟩⟩
      · rcases cons_iff.1 h with ⟨_, ⟨⟩, _⟩ | ⟨h, h''⟩
        exact Or.inr ⟨h, Or.inr ⟨h'', h'⟩⟩

/-- Threads at an end can be exchanged for others that lead to the same. -/
theorem append_congr (h : ∀ result, Leads place threads result → Leads place others result)
    (hl : Leads place (front ++ threads) result) : Leads place (front ++ others) result := by
  rw [append_iff] at hl ⊢
  rcases hl with hl | ⟨h1, h2⟩
  · exact Or.inl hl
  · exact Or.inr ⟨h1, h _ h2⟩

theorem go (hm : thread.moveAt place = .go next) (h : Leads place (thread :: others) result) :
    Leads place (next :: others) result := by
  rw [cons_iff] at h ⊢
  simpa only [Thread.yields_go hm] using h

theorem dead (hm : thread.moveAt place = .dead) (h : Leads place (thread :: others) result) :
    Leads place others result := by
  rw [cons_iff] at h
  rcases h with ⟨found, rfl, h⟩ | ⟨-, h⟩
  · simpa using (Thread.yields_dead hm).1 h
  · exact h

theorem fork (hm : thread.moveAt place = .fork label first second)
    (h : Leads place (thread :: others) result) :
    Leads place (first :: second :: others) result := by
  rw [cons_iff] at h
  rcases h with ⟨found, rfl, h⟩ | ⟨h, h'⟩
  · rcases (Thread.yields_fork hm).1 h with ⟨_, ⟨⟩, h⟩ | ⟨h, h'⟩
    · exact .found h
    · exact .next h (.found h')
  · rcases (Thread.yields_fork hm).1 h with ⟨_, ⟨⟩, _⟩ | ⟨h, h''⟩
    exact .next h (.next h'' h')

/-- Threads that all lead to no match have no word at the place. -/
theorem not_spells (h : Leads place threads none) : ∀ thread ∈ threads, ∀ word after,
    ¬ thread.SpellsAt place word after := by
  induction threads with
  | nil => simp
  | cons thread threads ih =>
    rcases cons_iff.1 h with ⟨_, ⟨⟩, _⟩ | ⟨h, h'⟩
    intro t ht
    rcases List.mem_cons.1 ht with rfl | ht
    · exact h.not_spells rfl
    · exact ih h' t ht

/-- Of threads in front of which the same words stand, one can be dropped. -/
theorem drop (hs : ∀ word after, thread.SpellsAt place word after →
      ∃ t ∈ front, ∃ word after, t.SpellsAt place word after)
    (h : Leads place (front ++ thread :: others) result) :
    Leads place (front ++ others) result := by
  rw [append_iff] at h ⊢
  rcases h with h | ⟨h, h'⟩
  · exact Or.inl h
  · refine Or.inr ⟨h, ?_⟩
    rcases cons_iff.1 h' with ⟨found, rfl, hy⟩ | ⟨-, h'⟩
    · obtain ⟨word, after, hw, -⟩ := hy.spells found rfl
      obtain ⟨t, ht, word, after, hw⟩ := hs word after hw
      exact absurd hw (h.not_spells t ht word after)
    · exact h'

end Leads

/-! ### Settling -/

/-- A label that was passed is covered: the threads that came of it stand in
front of those that go less far, and wherever a word stands for it, one stands
for them or for a thread that waits. -/
def Covered (place : Cursor) (waiting threads : List Thread) (nodes : List Node) : Prop :=
  ∃ pre post, threads = pre ++ post ∧ (∀ t ∈ pre, depthAll t.nodes < depthAll nodes) ∧
    ∀ word after, place.rest = word ++ after → spellsAll nodes place.before word after →
      ∃ t ∈ waiting ++ pre, ∃ word after, t.SpellsAt place word after

namespace Covered

variable {place : Cursor} {waiting waiting' threads others : List Thread} {thread : Thread}
  {nodes : List Node}

/-- A label stays covered when the first thread makes place for others that go no
further and have its words. -/
theorem replace (h : Covered place waiting (thread :: others) nodes) (new : List Thread)
    (hsub : waiting ⊆ waiting') (hd : ∀ t ∈ new, depthAll t.nodes ≤ depthAll thread.nodes)
    (hw : ∀ word after, thread.SpellsAt place word after →
      ∃ t ∈ waiting' ++ new, ∃ word after, t.SpellsAt place word after) :
    Covered place waiting' (new ++ others) nodes := by
  obtain ⟨pre, post, hpp, hdepth, hwords⟩ := h
  cases pre with
  | nil =>
    refine ⟨[], new ++ others, rfl, by simp, fun word after hrest hs => ?_⟩
    obtain ⟨t, ht, hspell⟩ := hwords word after hrest hs
    exact ⟨t, by simpa using hsub (by simpa using ht), hspell⟩
  | cons t pre =>
    obtain ⟨rfl, rfl⟩ := List.cons.inj hpp
    refine ⟨new ++ pre, post, by simp, fun t ht => ?_, fun word after hrest hs => ?_⟩
    · rcases List.mem_append.1 ht with ht | ht
      · exact (hd t ht).trans_lt (hdepth thread List.mem_cons_self)
      · exact hdepth t (List.mem_cons_of_mem _ ht)
    · obtain ⟨t, ht, word, after, hspell⟩ := hwords word after hrest hs
      rcases List.mem_append.1 ht with ht | ht
      · exact ⟨t, by simp [hsub ht], word, after, hspell⟩
      · rcases List.mem_cons.1 ht with rfl | ht
        · obtain ⟨t, ht, hspell⟩ := hw word after hspell
          refine ⟨t, ?_, hspell⟩
          rcases List.mem_append.1 ht with ht | ht <;> simp [ht]
        · exact ⟨t, by simp [ht], word, after, hspell⟩

/-- When a thread meets its label again, the threads that came of it before all
wait. -/
theorem of_head (h : Covered place waiting (thread :: others) thread.nodes) :
    ∀ word after, thread.SpellsAt place word after →
      ∃ t ∈ waiting, ∃ word after, t.SpellsAt place word after := by
  obtain ⟨pre, post, hpp, hdepth, hwords⟩ := h
  cases pre with
  | nil =>
    rintro word after ⟨hrest, hs⟩
    obtain ⟨t, ht, hspell⟩ := hwords word after hrest hs
    exact ⟨t, by simpa using ht, hspell⟩
  | cons t pre =>
    obtain ⟨rfl, -⟩ := List.cons.inj hpp
    exact absurd (hdepth thread List.mem_cons_self) (lt_irrefl _)

end Covered

/-- Steps that the threads still take until they wait or meet labels. -/
def pendingSteps : List Thread → Nat
  | [] => 0
  | thread :: threads => weightOf thread.goals + 1 + pendingSteps threads

/-- **Settling keeps the first match.**  The threads that wait in the end lead to
the first match that all threads led to, unless one was done; and the fuel is
enough if it covers the steps between labels and those after each label that was
not passed yet. -/
theorem settle_leads {sites : List (Nat × List Node)} {most labels : Nat} (place : Cursor)
    (hsites : ∀ x ∈ sites, ∀ y ∈ sites, x.1 = y.1 → x = y) (hlabels : ∀ x ∈ sites, x.1 < labels) :
    ∀ (fuel : Nat) (passed : Std.HashSet Nat) (seen : Finset Nat) (waiting threads : List Thread)
      (result : Option Match),
      (∀ label, passed.contains label = true ↔ label ∈ seen) → seen ⊆ Finset.range labels →
      (∀ t ∈ waiting, t.Fit sites most ∧ t.moveAt place = .wait) →
      (∀ t ∈ threads, t.Fit sites most) →
      (∀ x ∈ sites, x.1 ∈ seen → Covered place waiting threads x.2) →
      pendingSteps threads + 2 * (most + 1) * (labels - seen.card) ≤ fuel →
      Leads place (waiting.reverse ++ threads) result →
      ∃ out found, settle place.before place.rest.head? place.offset fuel passed waiting threads =
          (out, found) ∧
        (∀ t ∈ out, t.Fit sites most ∧ t.moveAt place = .wait) ∧
        ∃ result', Leads place out result' ∧ result = (result' <|> found) := by
  intro fuel
  induction fuel with
  | zero =>
    intro passed seen waiting threads result _ _ hwait _ _ hfuel hl
    cases threads with
    | nil =>
      exact ⟨_, _, rfl, by simpa using hwait, result, by simpa using hl, by simp⟩
    | cons t threads =>
      rw [pendingSteps] at hfuel
      omega
  | succ fuel ih =>
    intro passed seen waiting threads result hpassed hseen hwait hfit hcov hfuel hl
    cases threads with
    | nil => exact ⟨_, _, rfl, by simpa using hwait, result, by simpa using hl, by simp⟩
    | cons thread others =>
      have hthread := hfit thread List.mem_cons_self
      have hothers : ∀ t ∈ others, t.Fit sites most := fun t ht =>
        hfit t (List.mem_cons_of_mem _ ht)
      rw [pendingSteps] at hfuel
      rw [settle_succ, ← Thread.moveAt]
      cases hm : thread.moveAt place with
      | done =>
        refine ⟨_, _, rfl, by simpa using hwait, ?_⟩
        rcases Leads.append_iff.1 hl with ⟨found, rfl, h⟩ | ⟨h, h'⟩
        · exact ⟨_, h, rfl⟩
        · refine ⟨none, h, ?_⟩
          rcases Leads.cons_iff.1 h' with ⟨found, rfl, hy⟩ | ⟨hy, -⟩
          · exact (Thread.yields_done hm).1 hy
          · simpa using (Thread.yields_done hm).1 hy
      | wait =>
        refine ih passed seen (thread :: waiting) others result hpassed hseen ?_ hothers
          (fun x hx hxs => ?_) (by omega) (by simpa using hl)
        · intro t ht
          rcases List.mem_cons.1 ht with rfl | ht
          · exact ⟨hthread, hm⟩
          · exact hwait t ht
        · exact (hcov x hx hxs).replace [] (List.subset_cons_self _ _) (by simp)
            fun word after hs => ⟨thread, by simp, word, after, hs⟩
      | dead =>
        refine ih passed seen waiting others result hpassed hseen hwait hothers
          (fun x hx hxs => ?_) (by omega) (Leads.append_congr (fun _ h => h.dead hm) hl)
        exact (hcov x hx hxs).replace [] (List.Subset.refl _) (by simp)
          fun word after hs => absurd hs (Thread.not_spellsAt_of_dead hm)
      | go next =>
        obtain ⟨hnext, hweight⟩ := hthread.go hm
        refine ih passed seen waiting (next :: others) result hpassed hseen hwait ?_
          (fun x hx hxs => ?_) (by rw [pendingSteps]; omega)
          (Leads.append_congr (fun _ h => h.go hm) hl)
        · intro t ht
          rcases List.mem_cons.1 ht with rfl | ht
          · exact hnext
          · exact hothers t ht
        · exact (hcov x hx hxs).replace [next] (List.Subset.refl _)
            (by simpa using (hthread.progresses.go hm).2.1)
            fun word after hs => ⟨next, by simp, word, after, (Thread.spellsAt_of_go hm).1 hs⟩
      | fork label first second =>
        obtain ⟨hsite, hfirst, hsecond⟩ := hthread.fork hm
        dsimp only
        split
        · next hp =>
          -- The thread meets a label again: what it leads to is covered by what waits.
          have hhead := (hcov _ hsite ((hpassed label).1 hp)).of_head
          refine ih passed seen waiting others result hpassed hseen hwait hothers
            (fun x hx hxs => ?_) (by omega) (Leads.drop (fun word after hs => ?_) hl)
          · refine (hcov x hx hxs).replace [] (List.Subset.refl _) (by simp) ?_
            intro word after hs
            simpa using hhead word after hs
          · obtain ⟨t, ht, h⟩ := hhead word after hs
            exact ⟨t, by simpa using ht, h⟩
        · next hp =>
          have hfresh : label ∉ seen := fun h => hp ((hpassed label).2 h)
          have hspell : ∀ word after, thread.SpellsAt place word after →
              ∃ t ∈ waiting ++ [first, second], ∃ word after, t.SpellsAt place word after := by
            intro word after hs
            rcases (Thread.spellsAt_of_fork hm).1 hs with hs | hs
            · exact ⟨first, by simp, word, after, hs⟩
            · exact ⟨second, by simp, word, after, hs⟩
          have hdepth : ∀ t ∈ [first, second], depthAll t.nodes < depthAll thread.nodes :=
            fun t ht => (hthread.progresses.fork hm t ht).2.1
          have hseen' : insert label seen ⊆ Finset.range labels :=
            Finset.insert_subset (Finset.mem_range.2 (hlabels _ hsite)) hseen
          have hcard : seen.card + 1 ≤ labels := by
            rw [← Finset.card_insert_of_notMem hfresh, ← Finset.card_range labels]
            exact Finset.card_le_card hseen'
          refine ih (passed.insert label) (insert label seen) waiting (first :: second :: others)
            result (fun other => ?_) hseen' hwait ?_ (fun x hx hxs => ?_) ?_
            (Leads.append_congr (fun _ h => h.fork hm) hl)
          · rw [Std.HashSet.contains_insert, Finset.mem_insert, Bool.or_eq_true, hpassed,
              beq_iff_eq, eq_comm]
          · intro t ht
            rcases List.mem_cons.1 ht with rfl | ht
            · exact hfirst
            · rcases List.mem_cons.1 ht with rfl | ht
              · exact hsecond
              · exact hothers t ht
          · rcases Finset.mem_insert.1 hxs with hxl | hxs
            · obtain rfl := hsites x hx _ hsite hxl
              exact ⟨[first, second], others, rfl, hdepth, fun word after hrest hs =>
                hspell word after ⟨hrest, hs⟩⟩
            · exact (hcov x hx hxs).replace [first, second] (List.Subset.refl _)
                (fun t ht => (hdepth t ht).le) hspell
          · have h1 := hfirst.bounded.weight_le
            have h2 := hsecond.bounded.weight_le
            have hrest : labels - seen.card = labels - (insert label seen).card + 1 := by
              rw [Finset.card_insert_of_notMem hfresh]
              omega
            rw [hrest, Nat.mul_succ] at hfuel
            rw [pendingSteps, pendingSteps]
            omega

end StyleTokens

/-
Scripts that run side by side.

Scripts that share a world take turns: at each turn one of them makes its next request and
gets the reply.  A request is a single step, so the order of the turns is all that can
differ between two runs of the same scripts.

* `Pool` — scripts in one world;
* `Pool.turn`, `Pool.interleave` — one turn, and turns in the order of a schedule;
* `Pool.result?` — the result of a script that has ended;
* `turn_cases` — what a turn can do;
* `interleave_inv` — what every turn keeps, every schedule keeps;
* `exists_interleave_eq_run` — a script that is alone runs as ever.

Design notes: a schedule is any list of numbers.  A script that is not there or has ended
lets its turn pass, so that nothing has to be asked of a schedule.
-/
import Mathlib.Data.List.Induction
import StyleTokens.Proofs.World.Fallible

namespace StyleTokens

variable {α : Type}

/-- Scripts that run side by side in one world. -/
structure Pool (α : Type) where
  world : FallibleHost
  scripts : List (Script α)

namespace Pool

variable {pool : Pool α} {n m : Nat} {schedule : List Nat}

/-- One of the scripts makes its next request. -/
def turn (pool : Pool α) (n : Nat) : Pool α :=
  match pool.scripts[n]? with
  | some (.ask request next) =>
    { world := (pool.world.reply request).2
      scripts := pool.scripts.set n (next (pool.world.reply request).1) }
  | _ => pool

/-- The scripts take turns in the order of a schedule. -/
def interleave (pool : Pool α) (schedule : List Nat) : Pool α :=
  schedule.foldl turn pool

/-- The result of one of the scripts, if it has ended. -/
def result? (pool : Pool α) (n : Nat) : Option α :=
  match pool.scripts[n]? with
  | some (.done value) => some value
  | _ => none

@[simp] theorem interleave_nil (pool : Pool α) : pool.interleave [] = pool := rfl

@[simp] theorem interleave_cons (pool : Pool α) (n : Nat) (schedule : List Nat) :
    pool.interleave (n :: schedule) = (pool.turn n).interleave schedule := rfl

theorem interleave_append (pool : Pool α) (first second : List Nat) :
    pool.interleave (first ++ second) = (pool.interleave first).interleave second :=
  List.foldl_append

theorem result?_eq_some_iff {value : α} :
    pool.result? n = some value ↔ pool.scripts[n]? = some (.done value) := by
  unfold result?
  split
  · next other h => simp [h]
  · next h =>
    constructor
    · intro hv
      cases hv
    · intro hv
      exact absurd hv (h value)

/-! ### Turns -/

theorem turn_ask {request : Request} {next : request.Reply → Script α}
    (h : pool.scripts[n]? = some (.ask request next)) :
    pool.turn n =
      { world := (pool.world.reply request).2
        scripts := pool.scripts.set n (next (pool.world.reply request).1) } := by
  rw [turn, h]

/-- A turn passes, or a script makes its next request. -/
theorem turn_cases (pool : Pool α) (n : Nat) :
    (pool.turn n = pool ∧ ∀ request next, pool.scripts[n]? ≠ some (.ask request next)) ∨
    ∃ request next, pool.scripts[n]? = some (.ask request next) ∧ pool.turn n =
      { world := (pool.world.reply request).2
        scripts := pool.scripts.set n (next (pool.world.reply request).1) } := by
  by_cases h : ∃ request next, pool.scripts[n]? = some (.ask request next)
  · obtain ⟨request, next, h⟩ := h
    exact Or.inr ⟨request, next, h, turn_ask h⟩
  · have hnone : ∀ request next, pool.scripts[n]? ≠ some (.ask request next) :=
      fun request next hs => h ⟨request, next, hs⟩
    refine Or.inl ⟨?_, hnone⟩
    unfold turn
    split
    · next request next hs => exact absurd hs (hnone request next)
    · rfl

/-- The other scripts stay where they are. -/
theorem scripts_turn_of_ne (h : m ≠ n) : (pool.turn n).scripts[m]? = pool.scripts[m]? := by
  rcases pool.turn_cases n with ⟨hsame, -⟩ | ⟨request, next, -, hturn⟩
  · rw [hsame]
  · rw [hturn]
    exact List.getElem?_set_ne h.symm

/-- The script whose turn it is goes on with the reply. -/
theorem scripts_turn_self {request : Request} {next : request.Reply → Script α}
    (h : pool.scripts[n]? = some (.ask request next)) :
    (pool.turn n).scripts[n]? = some (next (pool.world.reply request).1) := by
  obtain ⟨hlength, -⟩ := List.getElem?_eq_some_iff.1 h
  rw [turn_ask h]
  exact List.getElem?_set_self hlength

/-- A result stays. -/
theorem result?_turn {value : α} (h : pool.result? n = some value) :
    (pool.turn m).result? n = some value := by
  rw [result?_eq_some_iff] at h ⊢
  by_cases hm : n = m
  · subst hm
    rcases pool.turn_cases n with ⟨hsame, -⟩ | ⟨request, next, hs, -⟩
    · rwa [hsame]
    · rw [h] at hs
      cases hs
  · rwa [scripts_turn_of_ne hm]

/-- Only the script whose turn it is comes to a result. -/
theorem result?_turn_of_ne (h : n ≠ m) : (pool.turn m).result? n = pool.result? n := by
  unfold result?
  rw [scripts_turn_of_ne h]

/-! ### Schedules -/

/-- **What every turn keeps, every schedule keeps**, with the schedule so far in sight. -/
theorem interleave_inv (inv : List Nat → Pool α → Prop) (start : inv [] pool)
    (step : ∀ before n, inv before (pool.interleave before) →
      inv (before ++ [n]) ((pool.interleave before).turn n))
    (schedule : List Nat) : inv schedule (pool.interleave schedule) := by
  -- from the last turn backwards
  induction schedule using List.reverseRecOn with
  | nil => exact start
  | append_singleton before n ih =>
    rw [interleave_append]
    exact step before n ih

theorem result?_interleave {value : α} (h : pool.result? n = some value) (schedule : List Nat) :
    (pool.interleave schedule).result? n = some value :=
  interleave_inv (fun _ state => state.result? n = some value) h
    (fun _ _ hstate => result?_turn hstate) schedule

/-- **A script that is alone runs as ever**, given enough turns. -/
theorem exists_interleave_eq_run (world : FallibleHost) (script : Script α) :
    ∃ turns, (Pool.mk world [script]).interleave (List.replicate turns 0) =
      ⟨(world.run script).2, [.done (world.run script).1]⟩ := by
  induction script generalizing world with
  | done value => exact ⟨0, rfl⟩
  | ask request next ih =>
    obtain ⟨turns, h⟩ := ih (world.reply request).1 (world.reply request).2
    exact ⟨turns + 1, h⟩

end Pool

end StyleTokens

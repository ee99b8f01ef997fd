/-
Counts.

* `Count.bound` — counts are numbers of 64 bits, so they stay below it;
* `Count.total` — the sum of several counts.

Main statements: `total_append` — a sum may be taken part by part; `total_filter` —
what counts nothing may be left out.
-/
namespace StyleTokens.Count

/-- The first number that does not fit into 64 bits. -/
def bound : Nat := 0x10000000000000000

/-- The sum of counts. -/
def total : List Nat → Nat
  | [] => 0
  | count :: counts => count + total counts

theorem total_append (first second : List Nat) :
    total (first ++ second) = total first + total second := by
  induction first with
  | nil => simp [total]
  | cons count counts ih => simp [total, ih, Nat.add_assoc]

/-- What counts nothing may be left out of a sum. -/
theorem total_filter {α : Type} {p : α → Bool} {f : α → Nat} {l : List α}
    (h : ∀ a ∈ l, p a = false → f a = 0) :
    total ((l.filter p).map f) = total (l.map f) := by
  induction l with
  | nil => rfl
  | cons a l ih =>
    have hrest := ih fun b hb => h b (List.mem_cons_of_mem _ hb)
    rw [List.map_cons, total, ← hrest]
    cases hp : p a with
    | true => rw [List.filter_cons_of_pos hp, List.map_cons, total]
    | false =>
      rw [List.filter_cons_of_neg (by simp [hp]), h a List.mem_cons_self hp, Nat.zero_add]

end StyleTokens.Count

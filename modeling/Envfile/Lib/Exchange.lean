/-
# `Envfile.Lib.Exchange` — sorting by exchanges

The sort of two nested loops that exchanges the item at one position with each
smaller one that it meets behind it, said without positions: `sink` is the
inner loop, of an item and the items behind it, and `sort` the outer one.  What
a loop over positions does to the items before and between is up to the program
that has one.

* `sink_perm`, `sink_le`: no item is lost, and what comes to the front is least;
* `sort_perm`, `sort_pairwise`: the same items, in order.
-/
import Mathlib.Data.List.Basic

namespace Exchange

variable {α : Type} [LT α] [DecidableLT α]

/-- `x` is exchanged for each smaller item that it meets: what comes to the
front, and what the items are then. -/
def sink (x : α) : List α → α × List α
  | [] => (x, [])
  | y :: ys =>
    if y < x then
      let rest := sink y ys
      (rest.1, x :: rest.2)
    else
      let rest := sink x ys
      (rest.1, y :: rest.2)

theorem sink_cons_of_lt {x y : α} (h : y < x) (ys : List α) :
    sink x (y :: ys) = ((sink y ys).1, x :: (sink y ys).2) := if_pos h

theorem sink_cons_of_not_lt {x y : α} (h : ¬ y < x) (ys : List α) :
    sink x (y :: ys) = ((sink x ys).1, y :: (sink x ys).2) := if_neg h

theorem sink_perm (x : α) (l : List α) : ((sink x l).1 :: (sink x l).2).Perm (x :: l) := by
  induction l generalizing x with
  | nil => exact .refl _
  | cons y ys ih =>
      by_cases h : y < x
      · rw [sink_cons_of_lt h]
        exact (List.Perm.swap x _ _).trans ((ih y).cons x)
      · rw [sink_cons_of_not_lt h]
        exact (List.Perm.swap y _ _).trans (((ih x).cons y).trans (List.Perm.swap x y ys))

theorem length_sink (x : α) (l : List α) : (sink x l).2.length = l.length :=
  Nat.succ.inj (sink_perm x l).length_eq

/-- The sort: the least item comes to the front, and then the least of those
behind it. -/
def sort : List α → List α
  | [] => []
  | x :: xs => (sink x xs).1 :: sort (sink x xs).2
termination_by l => l.length
decreasing_by
  rw [length_sink]
  exact Nat.lt_succ_self _

theorem sort_cons (x : α) (xs : List α) : sort (x :: xs) = (sink x xs).1 :: sort (sink x xs).2 := by
  rw [sort]

theorem sort_perm (l : List α) : (sort l).Perm l := by
  induction l using sort.induct with
  | case1 =>
      rw [sort]
  | case2 x xs ih =>
      rw [sort_cons]
      exact (ih.cons _).trans (sink_perm x xs)

section Order

variable [LE α] [Std.IsLinearOrder α] [Std.LawfulOrderLT α]

theorem sink_le (x : α) (l : List α) : ∀ z ∈ x :: l, (sink x l).1 ≤ z := by
  induction l generalizing x with
  | nil =>
      intro z hz
      rw [List.mem_singleton.mp hz]
      exact Std.le_refl x
  | cons y ys ih =>
      rw [List.forall_mem_cons]
      by_cases h : y < x
      · have hle := ih y
        rw [sink_cons_of_lt h]
        exact ⟨Std.le_trans (hle y List.mem_cons_self) (Std.le_of_lt h), hle⟩
      · have hle := List.forall_mem_cons.mp (ih x)
        rw [sink_cons_of_not_lt h, List.forall_mem_cons]
        exact ⟨hle.1, Std.le_trans hle.1 (Std.not_lt.mp h), hle.2⟩

theorem sort_pairwise (l : List α) : (sort l).Pairwise (· ≤ ·) := by
  induction l using sort.induct with
  | case1 =>
      rw [sort]
      exact .nil
  | case2 x xs ih =>
      rw [sort_cons, List.pairwise_cons]
      refine ⟨?_, ih⟩
      intro z hz
      have hmem : z ∈ (sink x xs).2 := (sort_perm _).mem_iff.mp hz
      exact sink_le x xs z ((sink_perm x xs).mem_iff.mp (List.mem_cons_of_mem _ hmem))

end Order

end Exchange

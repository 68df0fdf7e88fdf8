/-
# `Envfile.Awk.Sort` — the last listing of the reference

`emit_env_sorted` gathers the keys in the order in which AWK happens to yield
them and sorts them in place.  When the outer loop is at a position, the keys
before it are the least ones, in order; the inner loop exchanges the key at the
position for each smaller one behind it.  In terms of what is before, between
and behind the two positions the loops are `Exchange.sink` and `Exchange.sort`
(`sortInner_eq`, `sortOuter_eq`).

So each key is printed once, in byte order, and the order of the array makes no
difference to the listing (`emitEnvSorted_lists`) and to a run (`runFiles_order`).
-/
import Envfile.Awk.Classify
import Envfile.Lib.Assign
import Envfile.Lib.Exchange

namespace Envfile.Awk

open Assign

/-! ## The loops -/

section Loops

variable (u v w : List Bytes) (a b : Bytes)

theorem getD_behind : (u ++ a :: v).getD u.length [] = a := by
  rw [List.getD_eq_getElem?_getD, List.getElem?_append_right le_rfl, Nat.sub_self]
  rfl

theorem set_behind : (u ++ a :: v).set u.length b = u ++ b :: v := by
  rw [List.set_append_right _ _ le_rfl, Nat.sub_self, List.set_cons_zero]

theorem split_second : u ++ a :: (v ++ b :: w) = (u ++ a :: v) ++ b :: w := by
  rw [List.append_assoc, List.cons_append]

theorem getD_second : (u ++ a :: (v ++ b :: w)).getD (u ++ a :: v).length [] = b := by
  rw [split_second, getD_behind]

theorem swap_eq :
    swap (u ++ a :: (v ++ b :: w)) u.length (u ++ a :: v).length = u ++ b :: (v ++ a :: w) := by
  have hlen : (u ++ a :: v).length = (u ++ b :: v).length := by
    rw [List.length_append, List.length_append, List.length_cons, List.length_cons]
  rw [swap, getD_second, getD_behind, set_behind, split_second, hlen, set_behind, ← split_second]

theorem sortInner_eq (a : Bytes) (v w : List Bytes) :
    sortInner u.length w.length (u ++ a :: v).length (u ++ a :: (v ++ w)) =
      u ++ (Exchange.sink a w).1 :: (v ++ (Exchange.sink a w).2) := by
  induction w generalizing a v with
  | nil => rfl
  | cons b w ih =>
      have hlen : ∀ c d : Bytes, (u ++ a :: v).length + 1 = (u ++ c :: (v ++ [d])).length := by
        intro c d
        simp only [List.length_append, List.length_cons, List.length_nil]
        omega
      have hnext : ∀ c d : Bytes,
          sortInner u.length w.length ((u ++ a :: v).length + 1) (u ++ c :: (v ++ d :: w)) =
            u ++ (Exchange.sink c w).1 :: (v ++ d :: (Exchange.sink c w).2) := by
        intro c d
        have h := ih c (v ++ [d])
        rw [List.append_assoc, List.append_assoc, ← hlen c d] at h
        exact h
      rw [List.length_cons, sortInner, getD_second, getD_behind]
      by_cases hlt : b < a
      · rw [if_pos hlt, swap_eq, hnext, Exchange.sink_cons_of_lt hlt]
      · rw [if_neg hlt, hnext, Exchange.sink_cons_of_not_lt hlt]

theorem sortOuter_eq (w : List Bytes) :
    sortOuter w.length u.length (u ++ w) = u ++ Exchange.sort w := by
  induction w using Exchange.sort.induct generalizing u with
  | case1 =>
      rw [Exchange.sort]
      rfl
  | case2 a w ih =>
      have hrounds : (u ++ a :: w).length - (u.length + 1) = w.length := by
        rw [List.length_append, List.length_cons]
        omega
      have hposition : u.length + 1 = (u ++ [a]).length := by
        rw [List.length_append, List.length_singleton]
      have hinner : sortInner u.length w.length (u.length + 1) (u ++ a :: w) =
          (u ++ [(Exchange.sink a w).1]) ++ (Exchange.sink a w).2 := by
        rw [hposition, List.append_assoc]
        exact sortInner_eq u a [] w
      have h := ih (u ++ [(Exchange.sink a w).1])
      rw [Exchange.length_sink, List.length_append, List.length_singleton] at h
      rw [List.length_cons, sortOuter, hrounds, hinner, h, Exchange.sort_cons, List.append_assoc,
        List.singleton_append]

end Loops

/-! ## The listing -/

section Listing

variable {env : EnvArray} {order : List Bytes}

theorem substr_envfile (k : Bytes) :
    (substr k 1 8 != envfilePrefix) = !envfilePrefix.isPrefixOf k := by
  rw [substr_one, take_envfile]

/-- The keys as they are printed. -/
def sortedKeys (order : List Bytes) : List Bytes :=
  Exchange.sort (order.filter fun k => !envfilePrefix.isPrefixOf k)

theorem emitEnvSorted_eq (env : EnvArray) (order : List Bytes) :
    emitEnvSorted env order = (sortedKeys order).map fun k => (k, (env.lookup k).getD []) := by
  have hkept : (order.filter fun k => substr k 1 8 != envfilePrefix) =
      order.filter fun k => !envfilePrefix.isPrefixOf k :=
    List.filter_congr fun k _ => substr_envfile k
  have hsort := sortOuter_eq [] (order.filter fun k => !envfilePrefix.isPrefixOf k)
  rw [List.nil_append, List.nil_append] at hsort
  rw [emitEnvSorted, hkept]
  exact congrArg _ hsort

theorem sortedKeys_perm (h : order.Perm env.keys) :
    (sortedKeys order).Perm (env.keys.filter fun k => !envfilePrefix.isPrefixOf k) :=
  (Exchange.sort_perm _).trans (h.filter _)

theorem sortedKeys_increasing (h : order.Perm env.keys) :
    (sortedKeys order).Pairwise (· < ·) := by
  have hnodup : ((sortedKeys order).map id).Nodup := by
    rw [List.map_id]
    exact (sortedKeys_perm h).nodup_iff.mpr (env.keys_nodup.filter _)
  exact pairwise_lt_of_le (Exchange.sort_pairwise _) hnodup

theorem mem_sortedKeys (h : order.Perm env.keys) {k : Bytes} :
    k ∈ sortedKeys order ↔ k ∈ env ∧ ¬ envfilePrefix <+: k := by
  rw [(sortedKeys_perm h).mem_iff, List.mem_filter, Bool.not_eq_true', Bool.eq_false_iff, ne_eq,
    List.isPrefixOf_iff_prefix, AList.mem_keys]

theorem emitEnvSorted_lists (h : order.Perm env.keys) :
    Lists (fun k => if envfilePrefix.isPrefixOf k then none else env.lookup k)
      (emitEnvSorted env order) := by
  rw [emitEnvSorted_eq]
  refine Lists.of_keys (sortedKeys_increasing h) ?_ ?_
  · intro k
    rw [mem_sortedKeys h, ← List.isPrefixOf_iff_prefix]
    split
    · exact iff_of_false (fun hk => hk.2 ‹_›) Bool.false_ne_true
    · rw [AList.lookup_isSome]
      exact and_iff_left ‹_›
  · intro k v hv
    split at hv
    · cases hv
    · rw [hv]
      rfl

/-- Each key that does not start with `ENVFILE_` is printed once, with its
value, in strictly increasing byte order. -/
structure PrintsSorted (env : EnvArray) (printed : List Binding) : Prop where
  once : ∀ k, (printed.map Prod.fst).count k = if k ∈ env ∧ ¬ envfilePrefix <+: k then 1 else 0
  value : ∀ b ∈ printed, env.lookup b.1 = some b.2
  increasing : printed.Pairwise fun b c => b.1 < c.1

/-- The sort is a sort, whatever order the keys come in. -/
theorem emitEnvSorted_sorted (env : EnvArray) {order : List Bytes} (h : order.Perm env.keys) :
    PrintsSorted env (emitEnvSorted env order) := by
  have hlists := emitEnvSorted_lists h
  refine ⟨?_, ?_, hlists.sorted⟩
  · intro k
    have hkeys : (emitEnvSorted env order).map Prod.fst = sortedKeys order := by
      rw [emitEnvSorted_eq, List.map_map]
      exact List.map_id _
    have hnodup : (sortedKeys order).Nodup := (sortedKeys_increasing h).imp fun hlt => by
      rintro rfl
      exact List.lt_irrefl _ hlt
    rw [hkeys, hnodup.count]
    exact if_congr (mem_sortedKeys h) rfl rfl
  · rintro ⟨k, v⟩ hb
    have hv := (hlists.mem k v).mp hb
    split at hv
    · cases hv
    · exact hv

/-- The keys come in the wrong order; one of them is a variable of the program,
and one the start of another. -/
theorem emitEnvSorted_sorted_four :
    let bindings : List Binding := [(ascii "AB", ascii "1"), (ascii "A", ascii "2"),
      (ascii "ENVFILE_BOM", ascii "strip"), (ascii "_", [])]
    let env : EnvArray := bindings.foldl (fun env b => env.insert b.1 b.2) ∅
    let order := [ascii "_", ascii "ENVFILE_BOM", ascii "AB", ascii "A"]
    PrintsSorted env (emitEnvSorted env order) ∧
      emitEnvSorted env order =
        [(ascii "A", ascii "2"), (ascii "AB", ascii "1"), (ascii "_", [])] :=
  ⟨emitEnvSorted_sorted _ (by decide +kernel), by decide +kernel⟩

end Listing

/-! ## A run -/

/-- An order in which `for (k in env)` can yield the keys. -/
def Iterates (order : EnvArray → List Bytes) : Prop := ∀ env, (order env).Perm env.keys

theorem runFiles_order {order order' : EnvArray → List Bytes} (h : Iterates order)
    (h' : Iterates order') (cfg : Knobs) (environ : Environ) (files : List File) :
    runFiles cfg environ order files = runFiles cfg environ order' files := by
  have hemit : ∀ env, emitEnvSorted env (order env) = emitEnvSorted env (order' env) :=
    fun env => (emitEnvSorted_lists (h env)).unique (emitEnvSorted_lists (h' env))
  simp only [runFiles, hemit]

end Envfile.Awk

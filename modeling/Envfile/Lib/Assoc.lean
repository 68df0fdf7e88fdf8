/-
# `Envfile.Lib.Assoc` — association lists as maps

A table without a key twice, seen as the partial map that its lookups make.
Inserting is assigning (`lookup_insert`), so is inserting a list of bindings one
after the other (`lookup_foldl_insert`), also where a key that is there keeps its
value (`lookup_foldl_first`) or some keys are left out (`lookup_foldl_unless`);
the bindings of a table assign the table (`assign_bindings`), and its sorted keys
list it (`sorted_lists`).

A list of pairs without a key twice is such a table in its own right: looking a
key up and assigning the list come to the same (`find_eq_some`, `assign_eq_some`),
and a listing assigns what it lists (`assign_lists`).
-/
import Envfile.Lib.Assign
import Mathlib.Data.List.AList

namespace Assoc

open Assign

variable {κ ν : Type} [DecidableEq κ]

/-- A table with keys in `κ` and values in `ν`. -/
abbrev Table (κ ν : Type) := AList fun _ : κ => ν

theorem lookup_insert (t : Table κ ν) (k : κ) (v : ν) :
    (t.insert k v).lookup = Function.update t.lookup k (some v) := by
  funext key
  by_cases h : key = k
  · subst h
    rw [AList.lookup_insert, Function.update_self]
  · rw [AList.lookup_insert_ne h, Function.update_of_ne h]

theorem lookup_foldl_insert (bs : List (κ × ν)) (t : Table κ ν) :
    (bs.foldl (fun t b => t.insert b.1 b.2) t).lookup = assign t.lookup bs := by
  induction bs generalizing t with
  | nil => rfl
  | cons b bs ih => rw [List.foldl_cons, ih, lookup_insert, assign_cons]

theorem lookup_foldl_unless (p : κ → Bool) (bs : List (κ × ν)) (t : Table κ ν) :
    (bs.foldl (fun t b => if p b.1 then t else t.insert b.1 b.2) t).lookup =
      assign t.lookup (bs.filter fun b => !p b.1) := by
  induction bs generalizing t with
  | nil => rfl
  | cons b bs ih =>
      rw [List.foldl_cons, ih, List.filter_cons]
      cases p b.1 with
      | true => rfl
      | false => rw [if_neg Bool.false_ne_true, Bool.not_false, if_pos rfl, lookup_insert, assign_cons]

theorem lookup_foldl_first {bs : List (κ × ν)} (hnodup : (bs.map Prod.fst).Nodup) :
    ∀ {t : Table κ ν}, (∀ b ∈ bs, b.1 ∉ t) →
      (bs.foldl (fun t b => if b.1 ∈ t then t else t.insert b.1 b.2) t).lookup =
        assign t.lookup bs := by
  induction bs with
  | nil => exact fun _ => rfl
  | cons b bs ih =>
      intro t hfresh
      rw [List.map_cons, List.nodup_cons] at hnodup
      have hrest : ∀ c ∈ bs, c.1 ∉ t.insert b.1 b.2 := by
        intro c hc hmem
        rcases (AList.mem_insert t).mp hmem with heq | hmem
        · exact hnodup.1 (heq ▸ List.mem_map_of_mem hc)
        · exact hfresh c (List.mem_cons_of_mem _ hc) hmem
      rw [List.foldl_cons, if_neg (hfresh b List.mem_cons_self), ih hnodup.2 hrest, lookup_insert,
        assign_cons]

/-- The bindings of a table, in its order. -/
def bindings (t : Table κ ν) : List (κ × ν) := t.entries.map fun e => (e.1, e.2)

theorem assign_bindings (t : Table κ ν) : assign empty (bindings t) = t.lookup := by
  have hentries : ∀ (l : List (Sigma fun _ : κ => ν)) (k : κ), l.NodupKeys →
      assign empty (l.map fun e => (e.1, e.2)) k = l.dlookup k := by
    intro l k hl
    induction l with
    | nil => rfl
    | cons e l ih =>
        obtain ⟨hnew, hl⟩ := List.nodupKeys_cons.mp hl
        rw [List.map_cons, assign_cons, assign_eq_or, ih hl]
        by_cases hk : k = e.1
        · subst hk
          rw [List.dlookup_eq_none.mpr hnew, Function.update_self, List.dlookup_cons_eq]
          rfl
        · rw [Function.update_of_ne hk, List.dlookup_cons_ne _ _ hk]
          exact Option.or_none
  funext k
  exact hentries t.entries k t.nodupKeys

/-! ## Lists of pairs -/

section Pairs

variable {l : List (κ × ν)} (h : (l.map Prod.fst).Nodup)

include h

omit [DecidableEq κ] in
theorem find_eq_some {k : κ} {p : κ × ν → Bool} (hp : ∀ e, p e = true ↔ e.1 = k) {v : ν} :
    (l.find? p).map Prod.snd = some v ↔ (k, v) ∈ l := by
  induction l with
  | nil => exact iff_of_false (by rintro ⟨⟩) List.not_mem_nil
  | cons e l ih =>
      rw [List.map_cons, List.nodup_cons] at h
      rw [List.find?_cons, List.mem_cons]
      by_cases he : e.1 = k
      · rw [(hp e).mpr he]
        constructor
        · rintro ⟨⟩
          exact Or.inl (Prod.ext he.symm rfl)
        · rintro (rfl | hmem)
          · rfl
          · exact absurd (he ▸ List.mem_map_of_mem hmem) h.1
      · rw [Bool.eq_false_iff.mpr (mt (hp e).mp he)]
        refine (ih h.2).trans (or_iff_right ?_).symm
        rintro rfl
        exact he rfl

theorem assign_eq_some {k : κ} {v : ν} : assign empty l k = some v ↔ (k, v) ∈ l := by
  have hrev : (l.reverse.map Prod.fst).Nodup := by
    rw [List.map_reverse, List.nodup_reverse]
    exact h
  rw [assign_empty_eq, find_eq_some hrev fun e => decide_eq_true_iff, List.mem_reverse]

end Pairs

theorem assign_lists [LT κ] [Std.Asymm fun a b : κ => a < b] {m : κ → Option ν}
    {l : List (κ × ν)} (h : Lists m l) : assign empty l = m := by
  funext k
  refine Option.ext fun v => ?_
  rw [assign_eq_some h.nodup, h.mem]

section Lists

variable [LE κ] [LT κ] [DecidableLE κ] [Std.IsLinearOrder κ] [Std.LawfulOrderLT κ]

theorem sorted_lists (p : κ → Bool) (t : Table κ ν) {keys : List κ} (h : keys.Perm t.keys)
    (default_ : ν) :
    Lists (fun k => if p k then none else t.lookup k)
      (((keys.filter fun k => !p k).mergeSort fun a b => decide (a ≤ b)).map
        fun k => (k, (t.lookup k).getD default_)) := by
  let kept := keys.filter fun k => !p k
  have hperm : (kept.mergeSort fun a b => decide (a ≤ b)).Perm kept := List.mergeSort_perm _ _
  have hnodup : (kept.map id).Nodup := by
    rw [List.map_id]
    exact (h.nodup_iff.mpr t.keys_nodup).filter _
  refine Lists.of_keys (pairwise_lt_mergeSort (fun a b => decide_eq_true_iff) hnodup) ?_ ?_
  · intro k
    rw [hperm.mem_iff, List.mem_filter, h.mem_iff, ← AList.mem_keys, Bool.not_eq_true']
    split
    · exact iff_of_false (fun hk => Bool.false_ne_true (hk.2.symm.trans ‹_›)) Bool.false_ne_true
    · rw [AList.lookup_isSome]
      exact and_iff_left (Bool.eq_false_iff.mpr ‹_›)
  · intro k v hv
    split at hv
    · cases hv
    · rw [hv]
      rfl

end Lists

end Assoc

/-
# `Envfile.Lib.Assign` — maps made by assignments

A partial map from keys to values that assignments change one after the other,
the last one to a key winning, and its listing in the order of the keys.

Nothing here mentions a particular table.  What a verification uses:

* `assign_append`: assignments in order are assignments one after the other;
* `assign_of_not_mem`: a key that is not assigned keeps its value;
* `assign_eq_or`: a key has what it is assigned, or what it had;
* `assign_empty_eq`: the last assignment to a key is the one that counts;
* `assign_filter_not`: assignments that are left out leave their keys unbound;
* `update_inv`, `assign_inv`: what all bindings of a map have, it keeps under
  assignments that have it;
* `Lists.unique`: a map has one listing in strictly increasing order;
* `Lists.nodup`: which has no key twice;
* `Lists.of_keys`: sorted keys, each with its value, are that listing;
* `Lists.decoded`: so they are when the keys were coded and are decoded;
* `pairwise_lt_of_le`, `pairwise_lt_mergeSort`: sorting distinct keys gives that
  order.
-/
import Mathlib.Data.List.Induction
import Mathlib.Data.List.Sort
import Mathlib.Logic.Function.Basic

namespace Assign

variable {κ ν : Type} [DecidableEq κ]

/-- The map `m` after some assignments, in order. -/
def assign (m : κ → Option ν) (bs : List (κ × ν)) : κ → Option ν :=
  bs.foldl (fun m b => Function.update m b.1 (some b.2)) m

/-- The map with no key. -/
def empty : κ → Option ν := fun _ => none

theorem assign_append (m : κ → Option ν) (bs cs : List (κ × ν)) :
    assign m (bs ++ cs) = assign (assign m bs) cs :=
  List.foldl_append

theorem assign_concat (m : κ → Option ν) (bs : List (κ × ν)) (b : κ × ν) :
    assign m (bs ++ [b]) = Function.update (assign m bs) b.1 (some b.2) :=
  assign_append m bs [b]

theorem assign_of_not_mem {bs : List (κ × ν)} {k : κ} (h : k ∉ bs.map Prod.fst)
    (m : κ → Option ν) : assign m bs k = m k := by
  induction bs generalizing m with
  | nil => rfl
  | cons b bs ih =>
      rw [List.map_cons, List.mem_cons, not_or] at h
      have hrest := ih h.2 (Function.update m b.1 (some b.2))
      rw [Function.update_of_ne h.1] at hrest
      exact hrest

theorem assign_cons (m : κ → Option ν) (b : κ × ν) (bs : List (κ × ν)) :
    assign m (b :: bs) = assign (Function.update m b.1 (some b.2)) bs := rfl

theorem update_inv {P : κ × ν → Prop} {m : κ → Option ν} (hm : ∀ k v, m k = some v → P (k, v))
    {b : κ × ν} (hb : P b) : ∀ k v, Function.update m b.1 (some b.2) k = some v → P (k, v) := by
  intro k v hv
  by_cases hk : k = b.1
  · subst hk
    rw [Function.update_self] at hv
    obtain rfl := Option.some.inj hv
    exact hb
  · rw [Function.update_of_ne hk] at hv
    exact hm k v hv

theorem assign_inv {P : κ × ν → Prop} {bs : List (κ × ν)} (hbs : ∀ b ∈ bs, P b)
    {m : κ → Option ν} (hm : ∀ k v, m k = some v → P (k, v)) :
    ∀ k v, assign m bs k = some v → P (k, v) := by
  induction bs generalizing m with
  | nil => exact hm
  | cons b bs ih =>
      rw [assign_cons]
      exact ih (fun c hc => hbs c (List.mem_cons_of_mem _ hc))
        (update_inv hm (hbs b List.mem_cons_self))

theorem assign_congr {k : κ} (bs : List (κ × ν)) {m m' : κ → Option ν} (h : m k = m' k) :
    assign m bs k = assign m' bs k := by
  induction bs generalizing m m' with
  | nil => exact h
  | cons b bs ih =>
      rw [assign_cons, assign_cons]
      refine ih ?_
      by_cases hkb : k = b.1
      · subst hkb
        rw [Function.update_self, Function.update_self]
      · rw [Function.update_of_ne hkb, Function.update_of_ne hkb, h]

theorem assign_eq_or (m : κ → Option ν) (bs : List (κ × ν)) (k : κ) :
    assign m bs k = (assign empty bs k).or (m k) := by
  induction bs generalizing m with
  | nil => rfl
  | cons b bs ih =>
      have hupdate : Function.update m b.1 (some b.2) k =
          (Function.update empty b.1 (some b.2) k).or (m k) := by
        by_cases hkb : k = b.1
        · subst hkb
          rw [Function.update_self, Function.update_self]
          rfl
        · rw [Function.update_of_ne hkb, Function.update_of_ne hkb]
          rfl
      rw [assign_cons, assign_cons, ih, ih (Function.update empty b.1 (some b.2)), hupdate,
        Option.or_assoc]

/-- What a list of assignments gives a key: the value of the last one that
names it. -/
theorem assign_empty_eq (bs : List (κ × ν)) (k : κ) :
    assign empty bs k = (bs.reverse.find? fun b => decide (b.1 = k)).map Prod.snd := by
  induction bs using List.reverseRecOn with
  | nil => rfl
  | append_singleton bs b ih =>
      rw [assign_concat, List.reverse_append, List.reverse_singleton, List.singleton_append,
        List.find?_cons]
      by_cases hk : b.1 = k
      · subst hk
        rw [Function.update_self, decide_eq_true rfl]
        rfl
      · rw [Function.update_of_ne (Ne.symm hk), decide_eq_false hk]
        exact ih

theorem assign_empty_eq_none {bs : List (κ × ν)} {k : κ} :
    assign empty bs k = none ↔ ∀ b ∈ bs, b.1 ≠ k := by
  rw [assign_empty_eq, Option.map_eq_none_iff, List.find?_eq_none]
  simp only [List.mem_reverse, decide_eq_true_eq]

theorem assign_filter {p : κ → Bool} {k : κ} (hk : p k = true) (bs : List (κ × ν))
    (m : κ → Option ν) : assign m (bs.filter fun b => p b.1) k = assign m bs k := by
  induction bs generalizing m with
  | nil => rfl
  | cons b bs ih =>
      rw [assign_cons, List.filter_cons]
      cases hb : p b.1 with
      | true => rw [if_pos rfl, assign_cons, ih]
      | false =>
          have hkb : k ≠ b.1 := by
            rintro rfl
            rw [hk] at hb
            exact Bool.false_ne_true hb.symm
          rw [if_neg Bool.false_ne_true, ih]
          exact assign_congr bs (Function.update_of_ne hkb _ _).symm

theorem assign_filter_not (p : κ → Bool) (bs : List (κ × ν)) :
    assign empty (bs.filter fun b => !p b.1) = fun k => if p k then none else assign empty bs k := by
  funext k
  cases hk : p k with
  | false =>
      have hkeep : (!p k) = true := by rw [hk]; rfl
      rw [if_neg Bool.false_ne_true]
      exact @assign_filter _ _ _ (fun k => !p k) k hkeep bs empty
  | true =>
      rw [if_pos rfl, assign_empty_eq_none]
      rintro b hb rfl
      have hdrop := (List.mem_filter.mp hb).2
      rw [hk] at hdrop
      exact Bool.false_ne_true hdrop

/-! ## Listings -/

section Lists

variable [LT κ]

/-- The bindings of a map, one for each key, in strictly increasing order of
the keys. -/
structure Lists (m : κ → Option ν) (l : List (κ × ν)) : Prop where
  sorted : l.Pairwise fun b c => b.1 < c.1
  mem : ∀ k v, (k, v) ∈ l ↔ m k = some v

omit [DecidableEq κ] in
theorem Lists.unique [Std.Asymm fun a b : κ => a < b] {m : κ → Option ν} {l l' : List (κ × ν)}
    (h : Lists m l) (h' : Lists m l') : l = l' := by
  have hasymm : ∀ b c : κ × ν, b.1 < c.1 → ¬ c.1 < b.1 := fun _ _ => Std.Asymm.asymm _ _
  have hirrefl : Std.Irrefl fun b c : κ × ν => b.1 < c.1 := ⟨fun b hb => hasymm b b hb hb⟩
  have hanti : Std.Antisymm fun b c : κ × ν => b.1 < c.1 :=
    ⟨fun b c hbc hcb => absurd hcb (hasymm b c hbc)⟩
  refine h.sorted.eq_of_mem_iff h'.sorted ?_
  rintro ⟨k, v⟩
  rw [h.mem, h'.mem]

omit [DecidableEq κ] in
theorem Lists.nodup [Std.Asymm fun a b : κ => a < b] {m : κ → Option ν} {l : List (κ × ν)}
    (h : Lists m l) : (l.map Prod.fst).Nodup := by
  refine List.pairwise_map.mpr (h.sorted.imp ?_)
  rintro ⟨k, v⟩ ⟨k', v'⟩ hlt rfl
  exact Std.Asymm.asymm (r := fun a b : κ => a < b) k k hlt hlt

omit [DecidableEq κ] in
theorem Lists.of_keys {m : κ → Option ν} {keys : List κ} (hsorted : keys.Pairwise (· < ·))
    (hkeys : ∀ k, k ∈ keys ↔ (m k).isSome = true) {value : κ → ν}
    (hvalue : ∀ k v, m k = some v → value k = v) : Lists m (keys.map fun k => (k, value k)) := by
  refine ⟨List.pairwise_map.mpr hsorted, ?_⟩
  intro k v
  rw [List.mem_map]
  constructor
  · rintro ⟨k', hk', hkv⟩
    obtain ⟨rfl, rfl⟩ := Prod.mk.inj hkv
    obtain ⟨v, hv⟩ := Option.isSome_iff_exists.mp ((hkeys k').mp hk')
    rw [hvalue k' v hv, hv]
  · intro hv
    have hk : k ∈ keys := (hkeys k).mpr (Option.isSome_of_mem hv)
    exact ⟨k, hk, Prod.ext rfl (hvalue k v hv)⟩

omit [DecidableEq κ] in
/-- A listing whose keys are codes is, decoded, a listing as well, if decoding
keeps the order. -/
theorem Lists.decoded {κ' : Type} [LT κ'] {code : κ → κ'} (hcode : Function.Injective code)
    (hlt : ∀ a b, code a < code b → a < b) {m : κ → Option ν} {m' : κ' → Option ν}
    (hm : ∀ k, m' (code k) = m k) {l : List (κ' × ν)} (h : Lists m' l) (decode : κ' → κ)
    (hdecode : ∀ p ∈ l, code (decode p.1) = p.1) :
    Lists m (l.map fun p => (decode p.1, p.2)) := by
  refine ⟨List.pairwise_map.mpr ?_, ?_⟩
  · refine h.sorted.imp_of_mem ?_
    intro p q hp hq hpq
    refine hlt _ _ ?_
    rwa [hdecode p hp, hdecode q hq]
  · intro k v
    rw [List.mem_map, ← hm, ← h.mem]
    constructor
    · rintro ⟨p, hp, hpkv⟩
      obtain ⟨rfl, rfl⟩ := Prod.mk.inj hpkv
      rwa [hdecode p hp]
    · intro hkv
      exact ⟨_, hkv, Prod.ext (hcode (hdecode _ hkv)) rfl⟩

end Lists

theorem pairwise_lt_of_le {α κ : Type} [LE κ] [LT κ] [Std.IsLinearOrder κ] [Std.LawfulOrderLT κ]
    {key : α → κ} {l : List α} (hle : l.Pairwise fun a b => key a ≤ key b)
    (hnodup : (l.map key).Nodup) : l.Pairwise fun a b => key a < key b := by
  refine (hle.and (List.pairwise_map.mp hnodup)).imp ?_
  intro a b hab
  exact Std.lt_of_le_of_ne hab.1 hab.2

theorem pairwise_lt_mergeSort {α κ : Type} [LE κ] [LT κ] [Std.IsLinearOrder κ]
    [Std.LawfulOrderLT κ] {key : α → κ} {le : α → α → Bool}
    (hle : ∀ a b, le a b = true ↔ key a ≤ key b) {l : List α} (h : (l.map key).Nodup) :
    (l.mergeSort le).Pairwise fun a b => key a < key b := by
  have hsorted : (l.mergeSort le).Pairwise fun a b => le a b = true := by
    refine List.pairwise_mergeSort ?_ ?_ l
    · intro a b c hab hbc
      exact (hle a c).mpr (Std.le_trans ((hle a b).mp hab) ((hle b c).mp hbc))
    · intro a b
      rw [Bool.or_eq_true, hle, hle]
      exact Std.le_total
  have hnodup : ((l.mergeSort le).map key).Nodup :=
    ((List.mergeSort_perm l le).map key).nodup_iff.mpr h
  exact pairwise_lt_of_le (hsorted.imp fun hab => (hle _ _).mp hab) hnodup

end Assign

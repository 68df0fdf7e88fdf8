/-
# `Envfile.C.TableMap` — the environment table is a map

`value` is what the table gives for a key.  The operations of `envfile.c` are
the operations of a map: `env_table_set_n` assigns a key, seeding assigns the
entries of the process, and `env_table_emit_sorted` lists the bindings in the
order of their keys, without the `ENVFILE_` ones.

The invariant that makes the last one true is `Keyed`: no key twice, and no
NUL in a key or a value, so that `strcmp` and `fputs` see all of both.
-/
import Envfile.C.Table
import Envfile.Lib.Assign
import Envfile.Record

namespace Envfile.C

open Assign

/-- What a table gives for a key. -/
def EnvTable.value (env : EnvTable) (key : Bytes) : Option Bytes :=
  (envTableFindN env key).bind fun idx => (env.pairs[idx]?).map EnvPair.value

theorem envTableGet_eq (env : EnvTable) (key : Bytes) :
    envTableGet env key = env.value (cstr key) :=
  rfl

/-- No key twice, no NUL. -/
structure EnvTable.Keyed (env : EnvTable) : Prop where
  nodup : (env.pairs.map EnvPair.key).Nodup
  nulFree : ∀ p ∈ env.pairs, Byte.nul ∉ p.key ∧ Byte.nul ∉ p.value

theorem keyed_zero : EnvTable.zero.Keyed := ⟨List.nodup_nil, fun _ h => absurd h List.not_mem_nil⟩

theorem value_zero : EnvTable.zero.value = empty := rfl

/-! ## Finding a key -/

section Find

variable {pairs : List EnvPair} {key : Bytes}

theorem findFrom_some {n i : Nat} (h : findFrom pairs key n = some i) :
    ∃ p, pairs[i]? = some p ∧ p.key = key := by
  induction n with
  | zero => cases h
  | succ n ih =>
      rw [findFrom] at h
      split at h
      · obtain rfl := Option.some.inj h
        rename_i hkey
        obtain ⟨p, hp, heq⟩ := (Option.any_eq_true _ _).mp hkey
        exact ⟨p, hp, beq_iff_eq.mp heq⟩
      · exact ih h

theorem findFrom_none {n : Nat} (h : findFrom pairs key n = none) :
    ∀ j < n, ∀ p, pairs[j]? = some p → p.key ≠ key := by
  induction n with
  | zero => exact fun j hj => absurd hj (Nat.not_lt_zero j)
  | succ n ih =>
      rw [findFrom] at h
      split at h
      · cases h
      · rename_i hkey
        intro j hj p hp hpk
        rcases Nat.lt_succ_iff_lt_or_eq.mp hj with hj | rfl
        · exact ih h j hj p hp hpk
        · exact hkey (by rw [hp]; exact beq_iff_eq.mpr hpk)

theorem findFrom_congr {pairs' : List EnvPair} {n : Nat}
    (h : ∀ j < n, (pairs'[j]?).map EnvPair.key = (pairs[j]?).map EnvPair.key) :
    findFrom pairs' key n = findFrom pairs key n := by
  have hany : ∀ o : Option EnvPair, o.any (·.key == key) = (o.map EnvPair.key).any (· == key) := by
    intro o
    cases o <;> rfl
  induction n with
  | zero => rfl
  | succ n ih =>
      rw [findFrom, findFrom, ih (fun j hj => h j (Nat.lt_succ_of_lt hj)), hany, hany,
        h n (Nat.lt_succ_self n)]

end Find

theorem value_eq_some {env : EnvTable} (h : env.Keyed) {key v : Bytes} :
    env.value key = some v ↔ (⟨key, v⟩ : EnvPair) ∈ env.pairs := by
  rw [EnvTable.value, envTableFindN]
  cases hfind : findFrom env.pairs key env.pairs.length with
  | none =>
      refine iff_of_false (by rintro ⟨⟩) ?_
      intro hmem
      obtain ⟨j, hj, hp⟩ := List.mem_iff_getElem.mp hmem
      exact findFrom_none hfind j hj ⟨key, v⟩ (by rw [List.getElem?_eq_getElem hj, hp]) rfl
  | some i =>
      obtain ⟨p, hp, hkey⟩ := findFrom_some hfind
      have hmem : p ∈ env.pairs := List.mem_of_getElem? hp
      rw [Option.bind_some, hp, Option.map_some, Option.some.injEq]
      constructor
      · rintro rfl
        rwa [← hkey]
      · intro hv
        rw [List.inj_on_of_nodup_map h.nodup hmem hv hkey]

/-! ## Setting a key -/

section Set

variable {env : EnvTable} {key : Bytes}

theorem envTableSetN_pairs (env : EnvTable) (key value : Bytes) :
    (∃ idx, envTableFindN env key = some idx ∧ (envTableSetN env key value).pairs =
      env.pairs.modify idx fun p => { p with value := cstr value }) ∨
    (envTableFindN env key = none ∧
      (envTableSetN env key value).pairs = env.pairs ++ [⟨key, cstr value⟩]) := by
  rw [envTableSetN]
  cases hfind : envTableFindN env key with
  | some idx => exact Or.inl ⟨idx, rfl, rfl⟩
  | none =>
      refine Or.inr ⟨rfl, ?_⟩
      have hpairs : (envTableReserve env 1).pairs = env.pairs := by
        rw [envTableReserve]
        split <;> rfl
      show (envTableReserve env 1).pairs ++ _ = _
      rw [hpairs]

theorem map_key_modify (pairs : List EnvPair) (idx : Nat) (value : Bytes) (j : Nat) :
    ((pairs.modify idx fun p => { p with value := value })[j]?).map EnvPair.key =
      (pairs[j]?).map EnvPair.key := by
  rw [List.getElem?_modify]
  cases pairs[j]? with
  | none => rfl
  | some p =>
      show Option.map EnvPair.key (some (if idx = j then _ else p)) = _
      split <;> rfl

theorem envTableSetN_value (env : EnvTable) (key value : Bytes) :
    (envTableSetN env key value).value = Function.update env.value key (some (cstr value)) := by
  funext k
  rw [EnvTable.value, envTableFindN]
  rcases envTableSetN_pairs env key value with ⟨idx, hfind, hpairs⟩ | ⟨hfind, hpairs⟩
  · -- the pair that has the key
    obtain ⟨p, hp, hpkey⟩ := findFrom_some hfind
    rw [hpairs, List.length_modify, findFrom_congr fun j _ => map_key_modify env.pairs idx _ j]
    by_cases hk : k = key
    · subst hk
      have hfind : findFrom env.pairs k env.pairs.length = some idx := hfind
      rw [Function.update_self, hfind, Option.bind_some, List.getElem?_modify_eq, hp]
      rfl
    · rw [Function.update_of_ne hk, EnvTable.value, envTableFindN]
      cases hfound : findFrom env.pairs k env.pairs.length with
      | none => rfl
      | some i =>
          obtain ⟨r, hr, hrkey⟩ := findFrom_some hfound
          have hne : idx ≠ i := by
            rintro rfl
            rw [hp] at hr
            exact hk (hrkey.symm.trans ((Option.some.inj hr) ▸ hpkey))
          rw [Option.bind_some, Option.bind_some, List.getElem?_modify_ne _ _ hne]
  · -- a new pair at the end
    have hold : ∀ j < env.pairs.length, ((env.pairs ++ [⟨key, cstr value⟩])[j]?).map EnvPair.key =
        (env.pairs[j]?).map EnvPair.key := by
      intro j hj
      rw [List.getElem?_append_left hj]
    have hnew : (env.pairs ++ [⟨key, cstr value⟩])[env.pairs.length]? =
        some (⟨key, cstr value⟩ : EnvPair) := List.getElem?_concat_length
    rw [hpairs, List.length_append, List.length_singleton, findFrom, hnew, findFrom_congr hold]
    by_cases hk : k = key
    · subst hk
      rw [Function.update_self, Option.any_some, if_pos (beq_self_eq_true _), Option.bind_some,
        hnew]
      rfl
    · have hne : (key == k) = false := beq_eq_false_iff_ne.mpr fun e => hk e.symm
      rw [Function.update_of_ne hk, Option.any_some, hne, if_neg Bool.false_ne_true, EnvTable.value,
        envTableFindN]
      cases hfound : findFrom env.pairs k env.pairs.length with
      | none => rfl
      | some i =>
          obtain ⟨r, hr, -⟩ := findFrom_some hfound
          have hi : i < env.pairs.length := (List.getElem?_eq_some_iff.mp hr).1
          rw [Option.bind_some, Option.bind_some, List.getElem?_append_left hi]

theorem envTableSetN_keyed (h : env.Keyed) (hkey : Byte.nul ∉ key) (value : Bytes) :
    (envTableSetN env key value).Keyed := by
  rcases envTableSetN_pairs env key value with ⟨idx, -, hpairs⟩ | ⟨hfind, hpairs⟩
  · have hkeys : (envTableSetN env key value).pairs.map EnvPair.key =
        env.pairs.map EnvPair.key := by
      rw [hpairs]
      refine List.ext_getElem? ?_
      intro j
      rw [List.getElem?_map, List.getElem?_map, map_key_modify]
    refine ⟨by rw [hkeys]; exact h.nodup, ?_⟩
    rw [hpairs]
    intro p hp
    obtain ⟨j, hj⟩ := List.mem_iff_getElem?.mp hp
    rw [List.getElem?_modify] at hj
    obtain ⟨q, hq, heq⟩ := Option.map_eq_some_iff.mp hj
    have hq := h.nulFree q (List.mem_of_getElem? hq)
    rw [← heq]
    split
    · exact ⟨hq.1, nulFree_cstr value⟩
    · exact hq
  · have hfresh : key ∉ env.pairs.map EnvPair.key := by
      intro hmem
      obtain ⟨p, hp, hpkey⟩ := List.mem_map.mp hmem
      obtain ⟨j, hj, hpj⟩ := List.mem_iff_getElem.mp hp
      exact findFrom_none hfind j hj p (by rw [List.getElem?_eq_getElem hj, hpj]) hpkey
    refine ⟨?_, ?_⟩
    · rw [hpairs, List.map_append, List.map_singleton, List.nodup_append]
      refine ⟨h.nodup, List.nodup_singleton _, ?_⟩
      intro a ha b hb hab
      rw [List.mem_singleton] at hb
      rw [hab, hb] at ha
      exact hfresh ha
    · rw [hpairs]
      intro p hp
      rcases List.mem_append.mp hp with hp | hp
      · exact h.nulFree p hp
      · rw [List.mem_singleton.mp hp]
        exact ⟨hkey, nulFree_cstr value⟩

end Set

/-! ## Seeding -/

/-- The entries of the process that the table is seeded with. -/
def seeded (environ : Environ) : List Binding :=
  (environ.filterMap splitEquals).filter fun b => b.1 != [] && !envfilePrefix.isPrefixOf b.1

theorem seeded_eq {environ : Environ} (hkeyed : ∀ e ∈ environ, e.head? ≠ some Byte.equals) :
    seeded environ =
      (environ.filterMap splitEquals).filter fun b => !envfilePrefix.isPrefixOf b.1 := by
  refine List.filter_congr ?_
  intro b hb
  obtain ⟨e, he, hsplit⟩ := List.mem_filterMap.mp hb
  have hne : b.1 ≠ [] := by
    rcases line_shape e with ⟨-, hnone⟩ | ⟨k, v, rfl, -, hsome⟩
    · rw [hnone] at hsplit
      cases hsplit
    · obtain rfl := Option.some.inj (hsome.symm.trans hsplit)
      rintro rfl
      exact hkeyed _ he rfl
  rw [bne_iff_ne.mpr hne, Bool.true_and]

theorem seedEntry_eq (env : EnvTable) (entry : Bytes) :
    seedEntry env entry =
      match splitEquals entry with
      | none => env
      | some (k, v) =>
          if k != [] && !envfilePrefix.isPrefixOf k then envTableSetN env k v else env := by
  rw [seedEntry]
  rcases line_shape entry with ⟨hno, hsplit⟩ | ⟨k, v, rfl, hk, hsplit⟩
  · rw [memchr_eq_none.mpr hno, hsplit]
  · have hprefix : (k.length ≥ 8 && envfilePrefix.isPrefixOf (k ++ Byte.equals :: v)) =
        envfilePrefix.isPrefixOf k := by
      rw [Bool.eq_iff_iff, Bool.and_eq_true, decide_eq_true_iff, List.isPrefixOf_iff_prefix,
        List.isPrefixOf_iff_prefix]
      constructor
      · rintro ⟨hlen, hpre⟩
        exact List.prefix_of_prefix_length_le hpre (List.prefix_append _ _) hlen
      · intro hpre
        exact ⟨hpre.length_le, hpre.trans (List.prefix_append _ _)⟩
    have hnil : (k.length == 0) = !(k != []) := by cases k <;> rfl
    rw [memchr_append hk, hsplit]
    simp only [take_before, drop_after, hprefix, hnil]
    cases k != [] <;> cases envfilePrefix.isPrefixOf k <;> rfl

/-- The table that a run starts with. -/
theorem envTableInitFromProcess_spec {environ : Environ} (h : ∀ e ∈ environ, Byte.nul ∉ e) :
    (envTableInitFromProcess environ).Keyed ∧
      (envTableInitFromProcess environ).value = assign empty (seeded environ) := by
  have key : ∀ (es : Environ) (env : EnvTable), (∀ e ∈ es, Byte.nul ∉ e) → env.Keyed →
      (es.foldl seedEntry env).Keyed ∧
        (es.foldl seedEntry env).value = assign env.value (seeded es) := by
    intro es
    induction es with
    | nil => exact fun env _ henv => ⟨henv, rfl⟩
    | cons e es ih =>
        intro env hes henv
        have hrest : ∀ e ∈ es, Byte.nul ∉ e := fun d hd => hes d (List.mem_cons_of_mem _ hd)
        rw [List.foldl_cons, seedEntry_eq, seeded]
        cases hsplit : splitEquals e with
        | none =>
            rw [List.filterMap_cons_none hsplit]
            exact ih env hrest henv
        | some b =>
            obtain ⟨k, v⟩ := b
            rw [List.filterMap_cons_some hsplit]
            cases hkeep : k != [] && !envfilePrefix.isPrefixOf k with
            | false =>
                rw [List.filter_cons, if_neg (by rw [hkeep]; exact Bool.false_ne_true)]
                simp only [hkeep, Bool.false_eq_true, if_false]
                exact ih env hrest henv
            | true =>
                rw [List.filter_cons, if_pos hkeep]
                have hentry : Byte.nul ∉ k ∧ Byte.nul ∉ v := by
                  have he := hes e List.mem_cons_self
                  rcases line_shape e with ⟨-, hnone⟩ | ⟨k', v', rfl, -, hsome⟩
                  · rw [hnone] at hsplit
                    cases hsplit
                  · obtain ⟨rfl, rfl⟩ := Prod.mk.inj (Option.some.inj (hsome.symm.trans hsplit))
                    rw [List.mem_append, List.mem_cons, not_or, not_or] at he
                    exact ⟨he.1, he.2.2⟩
                obtain ⟨hkeyed, hvalue⟩ := ih _ hrest (envTableSetN_keyed henv hentry.1 v)
                simp only [hkeep, if_true]
                refine ⟨hkeyed, hvalue.trans ?_⟩
                rw [envTableSetN_value, cstr_of_nulFree hentry.2]
                rfl
  exact key environ .zero h keyed_zero

/-! ## Listing the table -/

theorem strcmp_gt (s t : Bytes) : strcmp s t = .gt ↔ t < s := by
  induction s generalizing t with
  | nil =>
      refine iff_of_false ?_ (List.not_lt_nil t)
      cases t <;> rintro ⟨⟩
  | cons a s ih =>
      cases t with
      | nil => exact iff_of_true rfl (List.nil_lt_cons a s)
      | cons b t =>
          rw [strcmp, List.cons_lt_cons_iff]
          rcases lt_trichotomy a.toNat b.toNat with h | h | h
          · have hlt : a < b := h
            rw [if_pos hlt]
            refine iff_of_false (by rintro ⟨⟩) ?_
            rintro (hba | ⟨rfl, -⟩)
            · exact absurd (UInt8.lt_trans hlt hba) (UInt8.lt_irrefl a)
            · exact UInt8.lt_irrefl _ hlt
          · obtain rfl := UInt8.toNat_inj.mp h
            rw [if_neg (UInt8.lt_irrefl a), if_neg (UInt8.lt_irrefl a), ih]
            refine ⟨fun h => Or.inr ⟨rfl, h⟩, ?_⟩
            rintro (haa | ⟨-, hlt⟩)
            · exact absurd haa (UInt8.lt_irrefl a)
            · exact hlt
          · have hlt : b < a := h
            have hnot : ¬ a < b := fun hab => UInt8.lt_irrefl _ (UInt8.lt_trans hlt hab)
            rw [if_neg hnot, if_pos hlt]
            exact iff_of_true rfl (Or.inl hlt)

theorem cmpEnvpairKey_le (p q : EnvPair) :
    (cmpEnvpairKey p q != .gt) = true ↔ cstr p.key ≤ cstr q.key := by
  rw [bne_iff_ne, cmpEnvpairKey, ne_eq, strcmp_gt, List.not_lt]

theorem envTableEmitSorted_lists {env : EnvTable} (h : env.Keyed) :
    Lists (fun k => if envfilePrefix.isPrefixOf k then none else env.value k)
      (envTableEmitSorted env) := by
  let le : EnvPair → EnvPair → Bool := fun a b => cmpEnvpairKey a b != .gt
  let kept := env.pairs.filter fun p => envTableShouldEmit p.key
  have hperm : (kept.mergeSort le).Perm kept := List.mergeSort_perm kept le
  have hmem : ∀ p ∈ kept.mergeSort le, p ∈ env.pairs ∧ envTableShouldEmit p.key = true :=
    fun p hp => List.mem_filter.mp (hperm.mem_iff.mp hp)
  have hplain : ∀ p ∈ kept.mergeSort le, cstr p.key = p.key ∧ cstr p.value = p.value := by
    intro p hp
    obtain ⟨hkey, hvalue⟩ := h.nulFree p (hmem p hp).1
    exact ⟨cstr_of_nulFree hkey, cstr_of_nulFree hvalue⟩
  refine ⟨?_, ?_⟩
  · -- sorted by `strcmp`, and no key twice
    have hkeys : kept.map (fun p => cstr p.key) = kept.map EnvPair.key := by
      refine List.map_congr_left ?_
      intro p hp
      exact (hplain p (hperm.mem_iff.mpr hp)).1
    have hnodup : (kept.map fun p => cstr p.key).Nodup := by
      rw [hkeys]
      exact h.nodup.sublist (List.filter_sublist.map _)
    rw [envTableEmitSorted, List.pairwise_map]
    exact pairwise_lt_mergeSort cmpEnvpairKey_le hnodup
  · intro k v
    have hemit : ∀ k, envTableShouldEmit k = true ↔ ¬ envfilePrefix.isPrefixOf k = true := by
      intro k
      rw [envTableShouldEmit, Bool.not_eq_true', Bool.not_eq_true]
    rw [envTableEmitSorted, List.mem_map]
    constructor
    · rintro ⟨p, hp, hkv⟩
      obtain ⟨hpairs, hshould⟩ := hmem p hp
      obtain ⟨rfl, rfl⟩ := Prod.mk.inj hkv
      rw [(hplain p hp).1, (hplain p hp).2, if_neg ((hemit _).mp hshould)]
      exact (value_eq_some h).mpr hpairs
    · intro hv
      split at hv
      · cases hv
      · have hpairs := (value_eq_some h).mp hv
        have hp : (⟨k, v⟩ : EnvPair) ∈ kept.mergeSort le :=
          hperm.mem_iff.mpr (List.mem_filter.mpr ⟨hpairs, (hemit k).mpr ‹_›⟩)
        refine ⟨⟨k, v⟩, hp, ?_⟩
        rw [(hplain _ hp).1, (hplain _ hp).2]

end Envfile.C

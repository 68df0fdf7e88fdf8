/-
# `Envfile.C.TableOps` — the environment table over a run

What holds of the table after any sequence of calls of
`env_table_init_from_process` and `env_table_set_n`.  The first starts a new
table, so the bindings of a table are those of the last call of it and of the
calls of the second since then (`bindings`).
-/
import Envfile.C.TableMap

namespace Envfile.C

open Assign

/-! ## Capacity -/

theorem le_growCap (need rounds cap : Nat) (h : need ≤ cap * 2 ^ rounds) :
    need ≤ growCap need rounds cap := by
  induction rounds generalizing cap with
  | zero =>
      rw [Nat.pow_zero, Nat.mul_one] at h
      exact h
  | succ rounds ih =>
      rw [growCap]
      split
      · refine ih (cap * 2) ?_
        rw [Nat.mul_assoc, ← Nat.pow_succ']
        exact h
      · exact Nat.not_lt.mp ‹_›

theorem le_envTableReserve (env : EnvTable) (extra : Nat) :
    env.pairs.length + extra ≤ (envTableReserve env extra).cap := by
  rw [envTableReserve]
  split
  · assumption
  · refine le_growCap _ _ _ ?_
    have hpos : 0 < if env.cap != 0 then env.cap else 32 := by
      split
      · exact Nat.pos_of_ne_zero (bne_iff_ne.mp ‹_›)
      · decide
    exact (Nat.le_of_lt Nat.lt_two_pow_self).trans (Nat.le_mul_of_pos_left _ hpos)

/-- The pairs of a table are allocated. -/
def EnvTable.Fits (env : EnvTable) : Prop := env.pairs.length ≤ env.cap

theorem envTableSetN_fits {env : EnvTable} (h : env.Fits) (key value : Bytes) :
    (envTableSetN env key value).Fits := by
  rw [EnvTable.Fits, envTableSetN]
  cases envTableFindN env key with
  | some idx =>
      show (env.pairs.modify idx _).length ≤ env.cap
      rw [List.length_modify]
      exact h
  | none =>
      show (_ ++ [_]).length ≤ (envTableReserve env 1).cap
      have hpairs : (envTableReserve env 1).pairs = env.pairs := by
        rw [envTableReserve]
        split <;> rfl
      rw [hpairs, List.length_append, List.length_singleton]
      exact le_envTableReserve env 1

theorem envTableInitFromProcess_fits (environ : Environ) :
    (envTableInitFromProcess environ).Fits := by
  rw [envTableInitFromProcess]
  refine List.foldlRecOn environ seedEntry (Nat.le_refl 0) ?_
  intro env henv entry _
  rw [seedEntry]
  split
  · exact henv
  · split
    · exact henv
    · exact envTableSetN_fits henv _ _

/-! ## Sequences of calls -/

/-- A call that changes the table. -/
inductive EnvOp where
  | init (environ : Environ)
  | set (key value : Bytes)
deriving DecidableEq, Repr

namespace EnvOp

/-- The strings that a call is given have no NUL. -/
def NulFree : EnvOp → Prop
  | init environ => ∀ e ∈ environ, Byte.nul ∉ e
  | set key value => Byte.nul ∉ key ∧ Byte.nul ∉ value

instance : DecidablePred NulFree
  | init environ => inferInstanceAs (Decidable (∀ e ∈ environ, Byte.nul ∉ e))
  | set key value => inferInstanceAs (Decidable (Byte.nul ∉ key ∧ Byte.nul ∉ value))

def call (env : EnvTable) : EnvOp → EnvTable
  | init environ => envTableInitFromProcess environ
  | set key value => envTableSetN env key value

/-- The table after some calls. -/
def run (ops : List EnvOp) : EnvTable := ops.foldl call .zero

/-- The bindings that are made by some calls, those of before, `bs`, included. -/
def bind (bs : List Binding) : EnvOp → List Binding
  | init environ => seeded environ
  | set key value => bs ++ [(key, value)]

def bindings (ops : List EnvOp) : List Binding := ops.foldl bind []

end EnvOp

/-- The table is the finite map that some bindings make. -/
structure EnvTable.IsMap (env : EnvTable) (bs : List Binding) : Prop where
  distinct : (env.pairs.map EnvPair.key).Nodup
  fits : env.pairs.length ≤ env.cap
  latest : ∀ name, Byte.nul ∉ name →
    envTableGet env name = (bs.reverse.find? fun b => decide (b.1 = name)).map Prod.snd
  never : ∀ name, Byte.nul ∉ name → (envTableGet env name = none ↔ ∀ b ∈ bs, b.1 ≠ name)
  others : ∀ key value name, Byte.nul ∉ name → name ≠ key →
    envTableGet (envTableSetN env key value) name = envTableGet env name

theorem call_inv {env : EnvTable} {bs : List Binding}
    (h : env.Keyed ∧ env.Fits ∧ env.value = assign empty bs) {op : EnvOp} (hop : op.NulFree) :
    (op.call env).Keyed ∧ (op.call env).Fits ∧ (op.call env).value = assign empty (op.bind bs) := by
  cases op with
  | init environ =>
      obtain ⟨hkeyed, hvalue⟩ := envTableInitFromProcess_spec hop
      exact ⟨hkeyed, envTableInitFromProcess_fits environ, hvalue⟩
  | set key value =>
      obtain ⟨hkeyed, hfits, hvalue⟩ := h
      refine ⟨envTableSetN_keyed hkeyed hop.1 value, envTableSetN_fits hfits key value, ?_⟩
      rw [EnvOp.call, envTableSetN_value, hvalue, cstr_of_nulFree hop.2, EnvOp.bind, assign_append]
      rfl

theorem run_inv {ops : List EnvOp} (h : ∀ op ∈ ops, op.NulFree) :
    (EnvOp.run ops).Keyed ∧ (EnvOp.run ops).Fits ∧
      (EnvOp.run ops).value = assign empty (EnvOp.bindings ops) := by
  induction ops using List.reverseRecOn with
  | nil => exact ⟨keyed_zero, Nat.le_refl 0, value_zero⟩
  | append_singleton ops op ih =>
      rw [EnvOp.run, EnvOp.bindings, List.foldl_append, List.foldl_append]
      exact call_inv (ih fun o ho => h o (List.mem_append_left _ ho))
        (h op (List.mem_append_right _ (List.mem_singleton_self op)))

theorem key_of_seeded {environ : Environ} (h : ∀ e ∈ environ, Byte.nul ∉ e) :
    ∀ p ∈ (envTableInitFromProcess environ).pairs,
      p.key ≠ [] ∧ ¬ envfilePrefix <+: p.key := by
  obtain ⟨hkeyed, hvalue⟩ := envTableInitFromProcess_spec h
  have hseeded : ∀ b ∈ seeded environ, b.1 ≠ [] ∧ ¬ envfilePrefix <+: b.1 := by
    intro b hb
    have hkeep := (List.mem_filter.mp hb).2
    rw [Bool.and_eq_true, bne_iff_ne, Bool.not_eq_true', ← Bool.not_eq_true,
      List.isPrefixOf_iff_prefix] at hkeep
    exact hkeep
  intro p hp
  have hv := (value_eq_some hkeyed).mpr hp
  rw [hvalue] at hv
  exact assign_inv hseeded (by rintro _ _ ⟨⟩) p.key p.value hv

/-- The table is a finite map after every sequence of calls, and no key that it
is seeded with is empty or starts with `ENVFILE_`. -/
theorem run_isMap {ops : List EnvOp} (h : ∀ op ∈ ops, op.NulFree) :
    (EnvOp.run ops).IsMap (EnvOp.bindings ops) ∧
      ∀ environ, EnvOp.init environ ∈ ops → ∀ p ∈ (envTableInitFromProcess environ).pairs,
        p.key ≠ [] ∧ ¬ envfilePrefix <+: p.key := by
  obtain ⟨hkeyed, hfits, hvalue⟩ := run_inv h
  have hget : ∀ name, Byte.nul ∉ name →
      envTableGet (EnvOp.run ops) name = assign empty (EnvOp.bindings ops) name := by
    intro name hname
    rw [envTableGet_eq, cstr_of_nulFree hname, hvalue]
  refine ⟨⟨hkeyed.nodup, hfits, ?_, ?_, ?_⟩, ?_⟩
  · intro name hname
    rw [hget name hname, assign_empty_eq]
  · intro name hname
    rw [hget name hname, assign_empty_eq_none]
  · intro key value name hname hne
    rw [envTableGet_eq, envTableGet_eq, cstr_of_nulFree hname, envTableSetN_value,
      Function.update_of_ne hne]
  · intro environ hmem
    exact key_of_seeded (h _ hmem)

/-- `PATH` is set twice, and `PAT` is none of its business. -/
theorem run_isMap_prefix :
    let ops := [EnvOp.init [ascii "PATH=/bin", ascii "ENVFILE_BOM=strip", ascii "=x"],
      .set (ascii "PAT") (ascii "1"), .set (ascii "PATH") (ascii "/usr/bin")]
    (EnvOp.run ops).IsMap (EnvOp.bindings ops) ∧
      ∀ environ, EnvOp.init environ ∈ ops → ∀ p ∈ (envTableInitFromProcess environ).pairs,
        p.key ≠ [] ∧ ¬ envfilePrefix <+: p.key :=
  run_isMap (by decide)

end Envfile.C

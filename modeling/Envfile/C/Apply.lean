/-
# `Envfile.C.Apply` — `apply` is the seed merged with `delta`

`delta` prints every binding it makes; `apply` makes the same bindings, prints
nothing until the end, and then lists the environment table.  So the table at
the end of a run is the seed with the bindings that `delta` prints assigned in
order (`run_delta`), and `apply` lists it.

The step of both actions on a line differs in what it prints alone
(`processFile_apply`), whatever the file is and however it is read.
-/
import Envfile.C.Files
import Envfile.C.TableMap

namespace Envfile.C

open Assign

/-! ## The two actions -/

/-- An output without its bindings. -/
def quiet : Out Int32 →+ Out Int32 where
  toFun o := { o with stdout := [] }
  map_zero' := rfl
  map_add' o p := by ext1 <;> simp

theorem substValue_stdout (val tag : Bytes) (lineNo : Nat) (env : EnvTable) :
    (substValue val tag lineNo env).2.stdout = [] := by
  rw [substValue_eq, Out.unbound_eq]

theorem quiet_of_stdout {o : Out Int32} (h : o.stdout = []) : quiet o = o := by
  ext1
  · exact h.symm
  all_goals rfl

section Actions

variable (tag : Bytes) (native : Bool) (lineNo : Nat)

/-- The value that a binding gets. -/
def resolvedValue (quoting : Quoting) (v : Bytes) (env : EnvTable) : Bytes × Out Int32 :=
  if native || quoting != .single then substValue (cstr v) tag lineNo env else (cstr v, 0)

theorem resolvedValue_stdout (quoting : Quoting) (v : Bytes) (env : EnvTable) :
    (resolvedValue tag native lineNo quoting v env).2.stdout = [] := by
  rw [resolvedValue]
  split
  · exact substValue_stdout _ _ _ _
  · rfl

theorem accept_delta (k v : Bytes) (quoting : Quoting) (env : EnvTable) :
    accept tag .delta native lineNo k v quoting env =
      (envTableSetN env k (resolvedValue tag native lineNo quoting v env).1,
        (resolvedValue tag native lineNo quoting v env).2 +
          Out.print k (cstr (resolvedValue tag native lineNo quoting v env).1)) := rfl

theorem accept_apply (k v : Bytes) (quoting : Quoting) (env : EnvTable) :
    accept tag .apply native lineNo k v quoting env =
      (envTableSetN env k (resolvedValue tag native lineNo quoting v env).1,
        (resolvedValue tag native lineNo quoting v env).2 + 0) := rfl

theorem record_apply (o : Outcome) (env : EnvTable) :
    record tag .apply native lineNo o env =
      ((record tag .delta native lineNo o env).1,
        quiet (record tag .delta native lineNo o env).2) := by
  cases o with
  | skipped => rfl
  | rejected code => rfl
  | accepted k v quoting =>
      show ((accept tag .apply native lineNo k v quoting env).1, Out.check + _) = _
      rw [accept_apply, ← quiet_of_stdout (resolvedValue_stdout tag native lineNo quoting v env)]
      show _ = (_, quiet (Out.check + (accept tag .delta native lineNo k v quoting env).2))
      rw [accept_delta, map_add, map_add]
      rfl

theorem record_delta {line : Bytes} {env : EnvTable} (henv : env.Keyed) :
    (record tag .delta native lineNo (outcome native line) env).1.Keyed ∧
      (record tag .delta native lineNo (outcome native line) env).1.value =
        assign env.value (record tag .delta native lineNo (outcome native line) env).2.stdout := by
  cases ho : outcome native line with
  | skipped => exact ⟨henv, rfl⟩
  | rejected code => exact ⟨henv, rfl⟩
  | accepted k v quoting =>
      obtain ⟨-, hnul, raw, rfl, -⟩ := outcome_accepted ho
      have hk : Byte.nul ∉ k := fun h => hnul (List.mem_append_left _ h)
      show (accept tag .delta native lineNo k v quoting env).1.Keyed ∧
        (accept tag .delta native lineNo k v quoting env).1.value =
          assign env.value ([] ++ (accept tag .delta native lineNo k v quoting env).2.stdout)
      rw [accept_delta, Out.add_stdout, resolvedValue_stdout]
      exact ⟨envTableSetN_keyed henv hk _, envTableSetN_value env k _⟩

end Actions

/-! ## Files -/

section Files

variable (cfg : Config)

theorem scanRecord_apply (native : Bool) (tag line : Bytes) (lineNo : Nat) (env : EnvTable) :
    scanRecord (Backend.c.parse native) tag .apply native line lineNo env =
      ((scanRecord (Backend.c.parse native) tag .delta native line lineNo env).1,
        quiet (scanRecord (Backend.c.parse native) tag .delta native line lineNo env).2) := by
  rw [scanRecord_eq, scanRecord_eq]
  show (_, Out.hand line lineNo + _) = (_, quiet (Out.hand line lineNo + _))
  rw [map_add, record_apply]
  rfl

theorem scanRecord_delta (native : Bool) (tag line : Bytes) (lineNo : Nat) {env : EnvTable}
    (henv : env.Keyed) :
    (scanRecord (Backend.c.parse native) tag .delta native line lineNo env).1.Keyed ∧
      (scanRecord (Backend.c.parse native) tag .delta native line lineNo env).1.value =
        assign env.value
          (scanRecord (Backend.c.parse native) tag .delta native line lineNo env).2.stdout := by
  rw [scanRecord_eq]
  exact record_delta tag native lineNo henv

theorem processFile_apply (tag : Bytes) (f : Stream) (env : EnvTable) :
    processFile .c (cfg.withAction .apply) tag f env =
      ((processFile .c (cfg.withAction .delta) tag f env).1,
        quiet (processFile .c (cfg.withAction .delta) tag f env).2) := by
  have hpass : prePasses (cfg.withAction .apply) f = prePasses (cfg.withAction .delta) f := rfl
  rw [processFile, processFile, hpass]
  cases prePasses (cfg.withAction .delta) f with
  | error code => rfl
  | ok data =>
      show scanStream (Backend.c.parse cfg.native) tag .apply _ _ cfg.native _ env =
        ((scanStream (Backend.c.parse cfg.native) tag .delta _ _ cfg.native _ env).1,
          quiet (scanStream (Backend.c.parse cfg.native) tag .delta _ _ cfg.native _ env).2)
      rw [scanStream, scanStream, ← Step.run_hom]
      refine Step.run_congr (fun event _ s => ?_) env
      cases event with
      | line bytes lineNo => exact scanRecord_apply _ _ _ _ _
      | tooLong => rfl
      | unreadable => rfl

theorem processFile_delta (tag : Bytes) (f : Stream) {env : EnvTable} (henv : env.Keyed) :
    (processFile .c (cfg.withAction .delta) tag f env).1.Keyed ∧
      (processFile .c (cfg.withAction .delta) tag f env).1.value =
        assign env.value (processFile .c (cfg.withAction .delta) tag f env).2.stdout := by
  rw [processFile]
  cases prePasses (cfg.withAction .delta) f with
  | error code => exact ⟨henv, rfl⟩
  | ok data =>
      show (scanStream (Backend.c.parse cfg.native) tag .delta _ _ cfg.native _ env).1.Keyed ∧
        (scanStream (Backend.c.parse cfg.native) tag .delta _ _ cfg.native _ env).1.value =
          assign env.value
            (scanStream (Backend.c.parse cfg.native) tag .delta _ _ cfg.native _ env).2.stdout
      rw [scanStream]
      refine Step.run_explains EnvTable.Keyed EnvTable.value (fun m o => assign m (Out.stdout o))
        (fun _ => rfl) (fun m v w => assign_append m v.stdout w.stdout) ?_ henv
      intro event _ s hs
      cases event with
      | line bytes lineNo => exact scanRecord_delta cfg.native tag bytes lineNo hs
      | tooLong => exact ⟨hs, rfl⟩
      | unreadable => exact ⟨hs, rfl⟩

theorem processArg_apply (file : File) (env : EnvTable) :
    processArg .c (cfg.withAction .apply) file env =
      ((processArg .c (cfg.withAction .delta) file env).1,
        quiet (processArg .c (cfg.withAction .delta) file env).2) := by
  rw [processArg, processArg]
  cases fopen file with
  | none => rfl
  | some f => exact processFile_apply cfg file.path f env

theorem processArg_delta (file : File) {env : EnvTable} (henv : env.Keyed) :
    (processArg .c (cfg.withAction .delta) file env).1.Keyed ∧
      (processArg .c (cfg.withAction .delta) file env).1.value =
        assign env.value (processArg .c (cfg.withAction .delta) file env).2.stdout := by
  rw [processArg]
  cases fopen file with
  | none => exact ⟨henv, rfl⟩
  | some f => exact processFile_delta cfg file.path f henv

/-! ## Runs -/

theorem run_apply (files : List File) (env : EnvTable) :
    Step.run (processArg .c (cfg.withAction .apply)) files env =
      ((Step.run (processArg .c (cfg.withAction .delta)) files env).1,
        quiet (Step.run (processArg .c (cfg.withAction .delta)) files env).2) := by
  rw [← Step.run_hom]
  exact Step.run_congr (fun file _ s => processArg_apply cfg file s) env

theorem run_delta (files : List File) {env : EnvTable} (henv : env.Keyed) :
    (Step.run (processArg .c (cfg.withAction .delta)) files env).1.Keyed ∧
      (Step.run (processArg .c (cfg.withAction .delta)) files env).1.value =
        assign env.value (Step.run (processArg .c (cfg.withAction .delta)) files env).2.stdout :=
  Step.run_explains EnvTable.Keyed EnvTable.value (fun m o => assign m (Out.stdout o))
    (fun _ => rfl) (fun m v w => assign_append m v.stdout w.stdout)
    (fun file _ _ hs => processArg_delta cfg file hs) henv

/-- The seed: the entries of the process, the last one to a key winning. -/
def seed (environ : Environ) : Bytes → Option Bytes := assign empty (environ.filterMap splitEquals)

theorem quiet_emitted (env : EnvTable) : quiet (emitted cfg env) = 0 := by
  rw [emitted]
  split <;> rfl

theorem assign_seeded {environ : Environ}
    (henviron : ∀ e ∈ environ, e.head? ≠ some Byte.equals) {k : Bytes}
    (hk : envfilePrefix.isPrefixOf k = false) :
    assign empty (seeded environ) k = seed environ k := by
  have hkeep : (!envfilePrefix.isPrefixOf k) = true := by rw [hk, Bool.not_false]
  rw [seeded_eq henviron]
  exact assign_filter (p := fun k => !envfilePrefix.isPrefixOf k) hkeep _ _

/-- For entries without NUL and with keys that are not empty: `apply` prints
one line for each key of the seed updated by what `delta`
prints, but for the `ENVFILE_` keys, in the order of the keys; a key that
`delta` does not bind has the value of the seed; and the diagnostics and the
counts are the same. -/
theorem apply_eq_seed_delta {environ : Environ}
    (henviron : ∀ e ∈ environ, Byte.nul ∉ e ∧ e.head? ≠ some Byte.equals)
    (files : List File) :
    let delta := runFiles .c (cfg.withAction .delta) environ files
    let apply := runFiles .c (cfg.withAction .apply) environ files
    Lists (fun k => if envfilePrefix.isPrefixOf k then none
        else assign (seed environ) delta.out.stdout k) apply.out.stdout ∧
      (∀ k v, seed environ k = some v → envfilePrefix.isPrefixOf k = false →
        k ∉ delta.out.stdout.map Prod.fst → (k, v) ∈ apply.out.stdout) ∧
      apply.out.diags = delta.out.diags ∧ apply.out.checked = delta.out.checked ∧
      apply.out.errors = delta.out.errors ∧ apply.exit = delta.exit := by
  intro delta apply
  obtain ⟨hkeyed, hvalue⟩ := envTableInitFromProcess_spec fun e he => (henviron e he).1
  obtain ⟨hkeyed', hvalue'⟩ := run_delta cfg files hkeyed
  let run := Step.run (processArg .c (cfg.withAction .delta)) files
    (envTableInitFromProcess environ)
  have hdelta : delta.out = run.2 + 0 := rfl
  have happly : apply.out = quiet run.2 + emitted (cfg.withAction .apply) run.1 := by
    have hout := runFiles_out .c (cfg.withAction .apply) environ files
    rw [run_apply] at hout
    exact hout
  have hprinted : apply.out.stdout = envTableEmitSorted run.1 := by
    rw [happly]
    rfl
  -- the bindings that the table ends with
  have hmap : (fun k => if envfilePrefix.isPrefixOf k then none else run.1.value k) =
      fun k => if envfilePrefix.isPrefixOf k then none
        else assign (seed environ) delta.out.stdout k := by
    funext k
    cases hk : envfilePrefix.isPrefixOf k with
    | true => rfl
    | false =>
        rw [if_neg Bool.false_ne_true, if_neg Bool.false_ne_true, hdelta, add_zero]
        refine (congrFun hvalue' k).trans (assign_congr _ ?_)
        rw [hvalue, assign_seeded (fun e he => (henviron e he).2) hk]
  have hlists := envTableEmitSorted_lists hkeyed'
  rw [hmap, ← hprinted] at hlists
  have hrest : quiet apply.out = quiet delta.out := by
    rw [happly, hdelta, map_add, map_add, quiet_emitted, map_zero]
    rfl
  have hdiags := congrArg Out.diags hrest
  have hchecked := congrArg Out.checked hrest
  have herrors : apply.out.errors = delta.out.errors := by
    have h := congrArg Out.errors hrest
    exact h
  refine ⟨hlists, ?_, hdiags, hchecked, herrors, ?_⟩
  · intro k v hseed hk hfresh
    rw [hlists.mem, hk, if_neg Bool.false_ne_true, assign_of_not_mem hfresh, hseed]
  · show (if apply.out.errors > 0 then 1 else 0) = if delta.out.errors > 0 then 1 else 0
    rw [herrors]

/-- A seed with an `ENVFILE_` entry, and a file that refers to the seed. -/
theorem apply_eq_seed_delta_path :
    let environ := [ascii "PATH=/bin", ascii "ENVFILE_ACTION=apply"]
    let files := [File.readable [] (ascii "P=$PATH\nB=2\nP=3\n")]
    let delta := runFiles .c (Config.default.withAction .delta) environ files
    let apply := runFiles .c (Config.default.withAction .apply) environ files
    Lists (fun k => if envfilePrefix.isPrefixOf k then none
        else assign (seed environ) delta.out.stdout k) apply.out.stdout :=
  (apply_eq_seed_delta .default (by decide) _).1

end Files

end Envfile.C

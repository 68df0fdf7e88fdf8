/-
# `Envfile.C.Decode` — reading what `apply` prints

`apply` writes its bindings as `KEY=VALUE` lines and escapes nothing.
`decode` is a reader of such lines: cut at newlines, each line at its first
`=`.  It finds the bindings back exactly when none of them has a newline in
it (`decode_text`).

What a file binds has no newline of its own; a newline comes from the seed,
as a binding that is listed or as a value that a reference puts into another
one.  So a seed without newlines makes the output decodable, whatever the
files are.
-/
import Envfile.C.Apply

namespace Envfile.C

open Assign

/-- What a reader makes of `KEY=VALUE` lines. -/
def decode (s : Bytes) : List (Option Binding) := (Lines.lines Byte.nl s).map splitEquals

/-- A binding that is one line. -/
def OneLine (b : Binding) : Prop := Byte.nl ∉ b.1 ∧ Byte.nl ∉ b.2

/-- A binding that is cut at its `=`. -/
def NoEquals (b : Binding) : Prop := Byte.equals ∉ b.1

/-- The line of a binding. -/
def lineOf (b : Binding) : Bytes := b.1 ++ Byte.equals :: b.2

theorem nl_not_mem_lineOf {b : Binding} (h : OneLine b) : Byte.nl ∉ lineOf b := by
  intro hmem
  rcases List.mem_append.mp hmem with hk | hv
  · exact h.1 hk
  rcases List.mem_cons.mp hv with he | hv
  · cases he
  · exact h.2 hv

theorem oneLine_of_mem_decode {s : Bytes} {b : Binding} (h : some b ∈ decode s) : OneLine b := by
  obtain ⟨line, hline, hsplit⟩ := List.mem_map.mp h
  have hnl := Lines.sep_not_mem_lines Byte.nl hline
  rcases line_shape line with ⟨-, hnone⟩ | ⟨k, v, rfl, -, hsome⟩
  · rw [hnone] at hsplit
    cases hsplit
  · obtain rfl := Option.some.inj (hsome.symm.trans hsplit)
    rw [List.mem_append, List.mem_cons, not_or, not_or] at hnl
    exact ⟨hnl.1, hnl.2.2⟩

/-- Bindings with keys without `=` are decoded when each is one line, and only
then. -/
theorem decode_text {l : List Binding} (hkeys : ∀ b ∈ l, NoEquals b) :
    decode (l.map Binding.text).flatten = l.map some ↔ ∀ b ∈ l, OneLine b := by
  constructor
  · intro h b hb
    refine @oneLine_of_mem_decode (l.map Binding.text).flatten b ?_
    rw [h]
    exact List.mem_map_of_mem hb
  · intro h
    have htext : (l.map Binding.text).flatten = Lines.unlines Byte.nl (l.map lineOf) := by
      rw [Lines.unlines, List.map_map]
      rfl
    have hlines : Lines.lines Byte.nl (Lines.unlines Byte.nl (l.map lineOf)) = l.map lineOf := by
      refine Lines.lines_unlines Byte.nl ?_
      intro line hline
      obtain ⟨b, hb, rfl⟩ := List.mem_map.mp hline
      exact nl_not_mem_lineOf (h b hb)
    rw [decode, htext, hlines, List.map_map]
    refine List.map_congr_left ?_
    intro b hb
    exact splitEquals_append (hkeys b hb) b.2

/-! ## What the table binds -/

/-- Every binding of a table has the property `P`. -/
def Binds (P : Binding → Prop) (env : EnvTable) : Prop :=
  ∀ k v, env.value k = some v → P (k, v)

section Binds

variable {P : Binding → Prop}

theorem binds_set {env : EnvTable} (henv : Binds P env) {key value : Bytes}
    (h : P (key, cstr value)) : Binds P (envTableSetN env key value) := by
  intro k v hv
  rw [envTableSetN_value] at hv
  exact update_inv henv h k v hv

/-- A property of bindings that accepted lines make in a table that has it. -/
def Kept (native : Bool) (P : Binding → Prop) : Prop :=
  ∀ (tag line k v : Bytes) (lineNo : Nat) (quoting : Quoting) (env : EnvTable), Binds P env →
    Byte.nl ∉ line → outcome native line = .accepted k v quoting →
      P (k, cstr (resolvedValue tag native lineNo quoting v env).1)

theorem body_binds {cfg : Config} (hkept : Kept cfg.native P) {tag line : Bytes} {lineNo : Nat}
    (hnl : Byte.nl ∉ line) {env : EnvTable} (henv : Binds P env) :
    Binds P (body .c (cfg.withAction .apply) tag line lineNo env).1 := by
  rw [body_eq _ (by rintro ⟨⟩)]
  show Binds P (record tag .apply cfg.native lineNo (outcome cfg.native line) env).1
  cases ho : outcome cfg.native line with
  | skipped => exact henv
  | rejected code => exact henv
  | accepted k v quoting =>
      show Binds P (accept tag .apply cfg.native lineNo k v quoting env).1
      rw [accept_apply]
      exact binds_set henv (hkept tag line k v lineNo quoting env henv hnl ho)

variable {cfg : Config} (hkept : Kept cfg.native P)

include hkept in
theorem processArg_binds (file : File) {env : EnvTable} (henv : Binds P env) :
    Binds P (processArg .c (cfg.withAction .apply) file env).1 := by
  rw [processArg]
  cases fopen file with
  | none => exact henv
  | some f =>
      show Binds P (processFile .c (cfg.withAction .apply) file.path f env).1
      rw [processFile_events]
      cases prePasses (cfg.withAction .apply) f with
      | error code => exact henv
      | ok data =>
          refine Step.run_inv (Binds P) ?_ henv
          intro event hevent s hs
          have hnl := streamEvents_nlFree _ event hevent
          cases event with
          | line bytes lineNo => exact body_binds hkept hnl hs
          | tooLong => exact hs
          | unreadable => exact hs

include hkept in
theorem run_binds (files : List File) {env : EnvTable} (henv : Binds P env) :
    Binds P (Step.run (processArg .c (cfg.withAction .apply)) files env).1 := by
  refine Step.run_inv (Binds P) ?_ henv
  intro file _ s hs
  exact processArg_binds hkept file hs

end Binds

/-! ## The two properties -/

theorem kept_equals (native : Bool) : Kept native NoEquals := by
  intro tag line k v lineNo quoting env _ _ h
  obtain ⟨-, -, raw, -, hk, -, -⟩ := outcome_accepted h
  exact hk

theorem cstr_subset (s : Bytes) : cstr s ⊆ s := (List.takeWhile_sublist _).subset

theorem kept_oneLine (native : Bool) : Kept native OneLine := by
  intro tag line k v lineNo quoting env henv hnl h
  obtain ⟨-, -, raw, rfl, -, -, hvalue⟩ := outcome_accepted h
  rw [List.mem_append, List.mem_cons, not_or, not_or] at hnl
  have hv : Byte.nl ∉ cstr v := by
    intro hmem
    exact hnl.2.2 (hvalue.sublist.subset (cstr_subset v hmem))
  refine ⟨hnl.1, ?_⟩
  intro hmem
  have hmem := cstr_subset _ hmem
  rw [resolvedValue] at hmem
  split at hmem
  · -- a newline of the resolved value is one of the value, or of a binding
    rw [substValue_eq] at hmem
    rcases mem_subst _ hmem with hmem | ⟨name, value, hname, hmem⟩
    · exact hv hmem
    · rw [envTableGet_eq] at hname
      exact (henv _ _ hname).2 hmem
  · exact hv hmem

/-! ## The seed -/

/-- A binding the table is seeded with is an entry, cut at its first `=`, and
no `ENVFILE_` variable. -/
theorem mem_seeded {environ : Environ} {b : Binding} (h : b ∈ seeded environ) :
    ∃ e ∈ environ, e = lineOf b ∧ NoEquals b ∧ envfilePrefix.isPrefixOf b.1 = false := by
  obtain ⟨hmem, hkeep⟩ := List.mem_filter.mp h
  obtain ⟨e, he, hsplit⟩ := List.mem_filterMap.mp hmem
  rw [Bool.and_eq_true, Bool.not_eq_true'] at hkeep
  rcases line_shape e with ⟨-, hnone⟩ | ⟨k, v, rfl, hk, hsome⟩
  · rw [hnone] at hsplit
    cases hsplit
  · obtain rfl := Option.some.inj (hsome.symm.trans hsplit)
    exact ⟨_, he, rfl, hk, hkeep.2⟩

/-- An entry with a key that is no `ENVFILE_` variable's does not start like
one: the prefix has no `=`, so it would have to be in the key. -/
theorem envfilePrefix_lineOf {b : Binding} (h : envfilePrefix.isPrefixOf b.1 = false) :
    envfilePrefix.isPrefixOf (lineOf b) = false := by
  rw [Bool.eq_false_iff] at h ⊢
  intro hpre
  have hkey := (Lines.prefix_line_iff Byte.equals (by decide) b.1 b.2).mp
    (List.isPrefixOf_iff_prefix.mp hpre)
  exact h (List.isPrefixOf_iff_prefix.mpr hkey)

/-- The table at the start has the keys of the seed, and no newline if the
seed has none. -/
theorem binds_seed {environ : Environ} (hnul : ∀ e ∈ environ, Byte.nul ∉ e) :
    Binds NoEquals (envTableInitFromProcess environ) ∧
      ((∀ e ∈ environ, envfilePrefix.isPrefixOf e = false → Byte.nl ∉ e) →
        Binds OneLine (envTableInitFromProcess environ)) := by
  obtain ⟨-, hvalue⟩ := envTableInitFromProcess_spec hnul
  have hempty : ∀ (P : Binding → Prop) (k v : Bytes), empty k = some v → P (k, v) := by
    intro P k v h
    cases h
  refine ⟨?_, ?_⟩
  · intro k v h
    rw [hvalue] at h
    refine assign_inv ?_ (hempty _) k v h
    intro b hb
    obtain ⟨e, -, -, hk, -⟩ := mem_seeded hb
    exact hk
  · intro hclean k v h
    rw [hvalue] at h
    refine assign_inv ?_ (hempty _) k v h
    intro b hb
    obtain ⟨e, he, rfl, -, hprefix⟩ := mem_seeded hb
    have hnl := hclean _ he (envfilePrefix_lineOf hprefix)
    rw [lineOf, List.mem_append, List.mem_cons, not_or, not_or] at hnl
    exact ⟨hnl.1, hnl.2.2⟩

/-! ## Runs -/

section Run

variable (cfg : Config)

/-- The table that a run of `apply` ends with. -/
def finalTable (environ : Environ) (files : List File) : EnvTable :=
  (Step.run (processArg .c (cfg.withAction .apply)) files
    (initialTable (cfg.withAction .apply) environ)).1

theorem apply_stdout (environ : Environ) (files : List File) :
    (runFiles .c (cfg.withAction .apply) environ files).out.stdout =
      envTableEmitSorted (finalTable cfg environ files) := by
  rw [runFiles_out, finalTable, run_apply]
  rfl

theorem finalTable_keyed {environ : Environ} (hnul : ∀ e ∈ environ, Byte.nul ∉ e)
    (files : List File) : (finalTable cfg environ files).Keyed := by
  obtain ⟨hkeyed, -⟩ := envTableInitFromProcess_spec hnul
  obtain ⟨hkeyed', -⟩ := run_delta cfg files hkeyed
  rw [finalTable, run_apply]
  exact hkeyed'

/-- What `apply` prints is decoded into the bindings it ends with, the
`ENVFILE_` keys left out and the keys in order, exactly when each of these is
one line.  That is so whenever the seed has no newline, but for its
`ENVFILE_` variables. -/
theorem apply_decodes {environ : Environ} (hnul : ∀ e ∈ environ, Byte.nul ∉ e)
    (files : List File) :
    let printed := (runFiles .c (cfg.withAction .apply) environ files).out.bytes
    let final := (finalTable cfg environ files).value
    ∃ l : List Binding, Lists (fun k => if envfilePrefix.isPrefixOf k then none else final k) l ∧
      (decode printed = l.map some ↔ ∀ b ∈ l, OneLine b) ∧
      ((∀ e ∈ environ, envfilePrefix.isPrefixOf e = false → Byte.nl ∉ e) →
        decode printed = l.map some) := by
  intro printed final
  obtain ⟨hseed, hclean⟩ := binds_seed hnul
  have hlists := envTableEmitSorted_lists (finalTable_keyed cfg hnul files)
  have hbound : ∀ b ∈ envTableEmitSorted (finalTable cfg environ files),
      (finalTable cfg environ files).value b.1 = some b.2 := by
    intro b hb
    have hvalue := (hlists.mem b.1 b.2).mp hb
    split at hvalue
    · cases hvalue
    · exact hvalue
  have hkeys : ∀ b ∈ envTableEmitSorted (finalTable cfg environ files), NoEquals b := by
    intro b hb
    exact run_binds (kept_equals cfg.native) files hseed b.1 b.2 (hbound b hb)
  have hprinted : printed =
      ((envTableEmitSorted (finalTable cfg environ files)).map Binding.text).flatten := by
    rw [← apply_stdout]
    rfl
  have hdecode := decode_text hkeys
  rw [← hprinted] at hdecode
  refine ⟨_, hlists, hdecode, ?_⟩
  intro hseedNl
  refine hdecode.mpr ?_
  intro b hb
  exact run_binds (kept_oneLine cfg.native) files (hclean hseedNl) b.1 b.2 (hbound b hb)

/-- A seed whose one value has a newline in it, and an empty file. -/
theorem apply_decodes_newline :
    let environ := [ascii "A=x\nB=y"]
    let files := [File.readable [] []]
    let printed := (runFiles .c (Config.default.withAction .apply) environ files).out.bytes
    let final := (finalTable .default environ files).value
    ∃ l : List Binding, Lists (fun k => if envfilePrefix.isPrefixOf k then none else final k) l ∧
      (decode printed = l.map some ↔ ∀ b ∈ l, OneLine b) ∧
      ((∀ e ∈ environ, envfilePrefix.isPrefixOf e = false → Byte.nl ∉ e) →
        decode printed = l.map some) :=
  apply_decodes .default (by decide) _

/-- The environment ends with one binding, and two are read. -/
theorem newline_misread :
    let environ := [ascii "A=x\nB=y"]
    let files := [File.readable [] []]
    let printed := (runFiles .c (Config.default.withAction .apply) environ files).out.bytes
    let final := (finalTable .default environ files).value
    (∀ e ∈ environ, Byte.nul ∉ e ∧ e.head? ≠ some Byte.equals) ∧
      Lists (fun k => if envfilePrefix.isPrefixOf k then none else final k)
        [(ascii "A", ascii "x\nB=y")] ∧
      decode printed = [some (ascii "A", ascii "x"), some (ascii "B", ascii "y")] := by
  intro environ files printed final
  have hnul : ∀ e ∈ environ, Byte.nul ∉ e ∧ e.head? ≠ some Byte.equals := by decide
  have hlists := envTableEmitSorted_lists
    (finalTable_keyed .default (fun e he => (hnul e he).1) files)
  have hlist : envTableEmitSorted (finalTable .default environ files) =
      [(ascii "A", ascii "x\nB=y")] := by
    have hfinal : finalTable .default environ files = ⟨[⟨ascii "A", ascii "x\nB=y"⟩], 32⟩ := rfl
    have hkept : (finalTable .default environ files).pairs.filter
        (fun p => envTableShouldEmit p.key) = [⟨ascii "A", ascii "x\nB=y"⟩] := by
      rw [hfinal]
      rfl
    rw [envTableEmitSorted, hkept, List.mergeSort_singleton]
    rfl
  have hprinted : printed = ascii "A=x\nB=y\n" := by
    have hstdout := apply_stdout .default environ files
    rw [hlist] at hstdout
    show ((runFiles .c (Config.default.withAction .apply) environ files).out.stdout.map
      Binding.text).flatten = _
    rw [hstdout]
    rfl
  rw [hlist] at hlists
  refine ⟨hnul, hlists, ?_⟩
  rw [hprinted]
  rfl

end Run

end Envfile.C

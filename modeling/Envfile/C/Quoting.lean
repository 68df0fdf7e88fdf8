/-
# `Envfile.C.Quoting` — which values `delta` leaves as they are

`delta` substitutes every accepted shell value that is not single-quoted, and
an unquoted value may contain a `$`.  So what `dump` and `delta` print for a
record is the same where the value is single-quoted, or unquoted and without a
reference.

Both actions print one binding for each accepted record, in the same order
(`Aligned`), whatever the files are.  The relation is shown for one event of
the reading loop, then for the events of a file, then for the files of a run.
-/
import Envfile.C.References

namespace Envfile.C

/-! ## Accepted records -/

/-- An accepted record and where it was read. -/
structure Accepted where
  path : Bytes
  line : Bytes
  lineNo : Nat
  key : Bytes
  value : Bytes

namespace Accepted

/-- What follows the `=` behind the key. -/
def raw (r : Accepted) : Bytes := r.line.drop (r.key.length + 1)

/-- The value is single-quoted, or unquoted and without a reference. -/
def Literal (r : Accepted) : Prop :=
  r.raw.head? = some Byte.squote ∨
    (r.raw.head? ≠ some Byte.dquote ∧ ∀ name, .ref name ∉ tokens r.raw)

/-- The record of an event, if it is an accepted one. -/
def ofEvent (native : Bool) (path : Bytes) : StreamEvent → List Accepted
  | .line bytes lineNo =>
      match outcome native bytes with
      | .accepted key value _ => [⟨path, bytes, lineNo, key, value⟩]
      | _ => []
  | _ => []

/-- What `delta` prints and reports for a record. -/
structure Emits (r : Accepted) (o : Binding × List Diag) : Prop where
  key : o.1.1 = r.key
  place : ∀ d ∈ o.2, d.code = .unboundRef ∧ d.path = r.path ∧ d.lineNo = some r.lineNo
  literal : r.Literal → o = ((r.key, r.value), [])

end Accepted

/-- `dump` prints the values of the records, and `delta` one binding for each;
the references that it reports as unbound are those of the records. -/
structure Aligned (rs : List Accepted) (dump delta : Out Int32) : Prop where
  dump : dump.stdout = rs.map fun r => (r.key, r.value)
  delta : ∃ outs : List (Binding × List Diag), List.Forall₂ Accepted.Emits rs outs ∧
    delta.stdout = outs.map Prod.fst ∧
    delta.diags.filter (fun d => d.code = .unboundRef) = outs.flatMap Prod.snd

namespace Aligned

variable {dump delta dump' delta' : Out Int32} {rs rs' : List Accepted}

theorem none (hdump : dump.stdout = []) (hdelta : delta.stdout = [])
    (hcodes : .unboundRef ∉ delta.codes) : Aligned [] dump delta := by
  have hdiags : delta.diags.filter (fun d => d.code = .unboundRef) = [] := by
    rw [List.filter_eq_nil_iff]
    intro d hd
    rw [decide_eq_true_iff]
    intro hcode
    exact hcodes (hcode ▸ List.mem_map_of_mem hd)
  exact ⟨hdump, [], .nil, hdelta, hdiags⟩

theorem zero : Aligned [] 0 0 := none rfl rfl List.not_mem_nil

theorem check : Aligned [] Out.check Out.check := none rfl rfl List.not_mem_nil

theorem hand (line : Bytes) (lineNo : Nat) :
    Aligned [] (Out.hand line lineNo) (Out.hand line lineNo) := none rfl rfl List.not_mem_nil

theorem diag {d : Diag} (h : d.code ≠ .unboundRef) : Aligned [] (Out.diag d) (Out.diag d) := by
  refine none rfl rfl ?_
  intro hcode
  exact h (List.mem_singleton.mp hcode).symm

theorem add (h : Aligned rs dump delta) (h' : Aligned rs' dump' delta') :
    Aligned (rs ++ rs') (dump + dump') (delta + delta') := by
  obtain ⟨hdump, outs, hemits, hdelta, hdiags⟩ := h
  obtain ⟨hdump', outs', hemits', hdelta', hdiags'⟩ := h'
  refine ⟨?_, outs ++ outs', List.rel_append hemits hemits', ?_, ?_⟩
  · rw [Out.add_stdout, hdump, hdump', List.map_append]
  · rw [Out.add_stdout, hdelta, hdelta', List.map_append]
  · rw [Out.add_diags, List.filter_append, hdiags, hdiags', List.flatMap_append]

/-- Programs that are aligned item by item, from any two tables, are so run by
run. -/
theorem run {α : Type} {f g : α → Step EnvTable (Out Int32)} {records : α → List Accepted}
    (h : ∀ a s t, Aligned (records a) (f a s).2 (g a t).2) (as : List α) (s t : EnvTable) :
    Aligned (as.flatMap records) (Step.run f as s).2 (Step.run g as t).2 := by
  induction as generalizing s t with
  | nil => exact zero
  | cons a as ih => exact (h a s t).add (ih _ _)

end Aligned

/-! ## One record -/

section Record

variable {tag : Bytes} {lineNo : Nat}

theorem resolvedValue_literal {quoting : Quoting} {v : Bytes} (hnul : Byte.nul ∉ v)
    (h : quoting = .single ∨ ∀ name, .ref name ∉ tokens v) (env : EnvTable) :
    resolvedValue tag false lineNo quoting v env = (v, 0) := by
  rw [resolvedValue, cstr_of_nulFree hnul]
  split
  · rename_i hsubst
    rcases h with rfl | hno
    · exact absurd hsubst (by decide)
    · rw [substValue_eq, subst_of_no_ref _ hno]
      rfl
  · rfl

theorem resolvedValue_diags {native : Bool} {quoting : Quoting} {v : Bytes} {env : EnvTable}
    {d : Diag} (h : d ∈ (resolvedValue tag native lineNo quoting v env).2.diags) :
    d.code = .unboundRef ∧ d.path = tag ∧ d.lineNo = some lineNo := by
  rw [resolvedValue] at h
  split at h
  · rw [substValue_eq, Out.unbound_eq] at h
    obtain ⟨name, -, rfl⟩ := List.mem_map.mp h
    exact ⟨rfl, rfl, rfl⟩
  · exact absurd h List.not_mem_nil

/-- Of an accepted shell value that has no double quote in front. -/
theorem literal_value {raw v : Bytes} {quoting : Quoting} (hu : unquote raw = .ok (v, quoting))
    (h : raw.head? = some Byte.squote ∨
      (raw.head? ≠ some Byte.dquote ∧ ∀ name, .ref name ∉ tokens raw)) :
    quoting = .single ∨ ∀ name, .ref name ∉ tokens v := by
  rcases unquote_ok hu with ⟨-, rfl, hgood⟩ | ⟨q, hq, rfl, rfl, -⟩
  · rcases h with hquote | ⟨-, hno⟩
    · -- an unquoted value has no quote in it
      exfalso
      exact List.any_eq_false.mp hgood _ (List.mem_of_mem_head? hquote) (by decide)
    · exact Or.inr hno
  · left
    rcases hq with rfl | rfl
    · rcases h with hquote | ⟨hquote, -⟩
      · exact absurd hquote (by rintro ⟨⟩)
      · exact absurd rfl hquote
    · rfl

theorem ne_unboundRef_of_rejected {native : Bool} {line : Bytes} {code : Code}
    (h : outcome native line = .rejected code) : code ≠ .unboundRef := by
  rintro rfl
  rcases outcome_rejected h with ⟨⟨⟩, -⟩ | ⟨⟨⟩⟩

variable {cfg : Config}

theorem aligned_accepted (hnative : cfg.native = false) {line k v : Bytes} {quoting : Quoting}
    (ho : outcome cfg.native line = .accepted k v quoting) (s t : EnvTable) :
    Aligned [⟨tag, line, lineNo, k, v⟩] (accept tag .dump cfg.native lineNo k v quoting s).2
      (accept tag .delta cfg.native lineNo k v quoting t).2 := by
  obtain ⟨-, hnul, raw, hline, -, -, hvalue⟩ := outcome_accepted ho
  have hfree := (nulFree_of_accepted hnul ho).2
  let resolved := resolvedValue tag cfg.native lineNo quoting v t
  have hunbound : ∀ d ∈ resolved.2.diags,
      d.code = .unboundRef ∧ d.path = tag ∧ d.lineNo = some lineNo := by
    intro d hd
    exact resolvedValue_diags hd
  refine ⟨rfl, [((k, cstr resolved.1), resolved.2.diags)], ?_, ?_, ?_⟩
  · refine .cons ⟨rfl, hunbound, ?_⟩ .nil
    intro hliteral
    rw [hnative] at hvalue
    obtain ⟨-, -, hu⟩ : isName k = true ∧ startsBlank raw = false ∧ _ := hvalue
    have hraw : Accepted.raw ⟨tag, line, lineNo, k, v⟩ = raw := by
      rw [Accepted.raw, hline, drop_after]
    rw [Accepted.Literal, hraw] at hliteral
    have hresolved : resolved = (v, 0) := by
      show resolvedValue tag cfg.native lineNo quoting v t = _
      rw [hnative]
      exact resolvedValue_literal hfree (literal_value hu hliteral) t
    rw [hresolved]
    show ((k, cstr v), []) = _
    rw [cstr_of_nulFree hfree]
  · rw [accept_delta, Out.add_stdout, resolvedValue_stdout]
    rfl
  · rw [accept_delta, Out.add_diags, Out.print_diags, List.append_nil, List.flatMap_singleton,
      List.filter_eq_self]
    intro d hd
    rw [decide_eq_true_iff]
    exact (hunbound d hd).1

theorem aligned_event (hnative : cfg.native = false) (event : StreamEvent) (s t : EnvTable) :
    Aligned (Accepted.ofEvent cfg.native tag event)
      (eventStep .c (cfg.withAction .dump) tag event s).2
      (eventStep .c (cfg.withAction .delta) tag event t).2 := by
  cases event with
  | tooLong => exact .diag (by rintro ⟨⟩)
  | unreadable => exact .diag (by rintro ⟨⟩)
  | line bytes lineNo =>
      show Aligned _ (body .c (cfg.withAction .dump) tag bytes lineNo s).2
        (body .c (cfg.withAction .delta) tag bytes lineNo t).2
      rw [body_withAction cfg (by rintro ⟨⟩), body_withAction cfg (by rintro ⟨⟩), Accepted.ofEvent]
      refine (Aligned.hand bytes lineNo).add ?_
      cases ho : outcome cfg.native bytes with
      | skipped => exact .zero
      | rejected code => exact Aligned.check.add (.diag (ne_unboundRef_of_rejected ho))
      | accepted k v quoting => exact Aligned.check.add (aligned_accepted hnative ho s t)

end Record

/-! ## Runs -/

section Run

variable {cfg : Config}

variable (cfg) in
/-- The accepted records of a file. -/
def acceptedOf (file : File) : List Accepted :=
  (fileEvents cfg file).flatMap (Accepted.ofEvent cfg.native file.path)

theorem aligned_file (hnative : cfg.native = false) (file : File) (s t : EnvTable) :
    Aligned (acceptedOf cfg file) (processArg .c (cfg.withAction .dump) file s).2
      (processArg .c (cfg.withAction .delta) file t).2 := by
  rcases processArg_events cfg .c file with ⟨hnil, code, hcode, hemit⟩ | hrun
  · rw [hemit, hemit, acceptedOf, hnil]
    refine .diag ?_
    rintro rfl
    cases hcode
  · rw [hrun, hrun]
    exact .run (aligned_event hnative) (fileEvents cfg file) s t

/-- In shell format, `delta` prints for a record whose value is single-quoted,
or unquoted and without a reference, what `dump` prints for it, and reports
nothing. -/
theorem literal_not_substituted (hnative : cfg.native = false) (environ : Environ)
    (files : List File) :
    Aligned (files.flatMap (acceptedOf cfg))
      (runFiles .c (cfg.withAction .dump) environ files).out
      (runFiles .c (cfg.withAction .delta) environ files).out := by
  have hdump := emitted_of_ne (cfg.withAction .dump) (by rintro ⟨⟩)
  have hdelta := emitted_of_ne (cfg.withAction .delta) (by rintro ⟨⟩)
  rw [runFiles_out, runFiles_out, hdump, hdelta, add_zero, add_zero]
  exact .run (aligned_file hnative) files _ _

/-- A single-quoted reference, an unbound one in double quotes, and none. -/
theorem literal_not_substituted_quoted :
    let files := [File.readable [] (ascii "A='$B'\nC=\"$B\"\nD=e\n")]
    Aligned (files.flatMap (acceptedOf .default))
      (runFiles .c (Config.default.withAction .dump) [] files).out
      (runFiles .c (Config.default.withAction .delta) [] files).out :=
  literal_not_substituted rfl [] _

/-- An unquoted value with a reference. -/
theorem unquoted_substituted :
    let files := [File.readable [] (ascii "A=$B\n")]
    let dump := runFiles .c (Config.default.withAction .dump) [] files
    let delta := runFiles .c (Config.default.withAction .delta) [] files
    dump.out.bytes = ascii "A=$B\n" ∧ delta.out.bytes = ascii "A=\n" ∧
      delta.out.codes = [.unboundRef] := by
  decide

end Run

end Envfile.C

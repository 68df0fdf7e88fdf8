/-
# `Envfile.C.References` — the names that the seed decides

`delta` resolves references in the environment table, which the seed fills
and every accepted record changes.  A name is free in a run when the value of
some record refers to it and no record before it in the run has bound it; in
the words of `Envfile.Lib.Dataflow`, it is live before the run.

Two seeds that agree on the free names make the same output (`delta_agree`),
whatever they have for all other names.
-/
import Envfile.C.Apply
import Envfile.Lib.Dataflow

namespace Envfile.C

open Assign Dataflow

/-! ## One record -/

section Record

variable (native : Bool)

/-- The line of an accepted record whose value is substituted and refers to
the name. -/
def Refers : StreamEvent → Bytes → Prop
  | .line bytes _, name => ∃ k v quoting, outcome native bytes = .accepted k v quoting ∧
      (native = true ∨ quoting ≠ .single) ∧ .ref name ∈ tokens v
  | .tooLong, _ => False
  | .unreadable, _ => False

/-- The line of an accepted record with the name for its key. -/
def BindsName : StreamEvent → Bytes → Prop
  | .line bytes _, name => ∃ v quoting, outcome native bytes = .accepted name v quoting
  | .tooLong, _ => False
  | .unreadable, _ => False

/-- What the loop body reads and binds. -/
def use : Use StreamEvent Bytes where
  reads := Refers native
  binds := BindsName native

theorem resolvedValue_congr {tag : Bytes} {lineNo : Nat} {quoting : Quoting} {v : Bytes}
    (hnul : Byte.nul ∉ v) {env env' : EnvTable}
    (h : native = true ∨ quoting ≠ .single →
      ∀ name, .ref name ∈ tokens v → env.value name = env'.value name) :
    resolvedValue tag native lineNo quoting v env =
      resolvedValue tag native lineNo quoting v env' := by
  rw [resolvedValue, resolvedValue, cstr_of_nulFree hnul]
  cases hsubst : native || quoting != .single with
  | false => rfl
  | true =>
      rw [Bool.or_eq_true, bne_iff_ne] at hsubst
      have hvalue : subst (envTableGet env) v = subst (envTableGet env') v := by
        refine subst_congr _ ?_
        intro name hname
        have hbytes : Byte.nul ∉ name := fun hc => hnul (mem_tokens hc _ hname)
        rw [envTableGet_eq, envTableGet_eq, cstr_of_nulFree hbytes]
        exact h hsubst name hname
      rw [if_pos rfl, if_pos rfl, substValue_eq, substValue_eq, hvalue]

/-- A record is told by the names that its value refers to. -/
theorem record_agree {tag line : Bytes} {lineNo : Nat} {s t : EnvTable}
    (hreads : ∀ k, Refers native (.line line lineNo) k → s.value k = t.value k) :
    let outcome := outcome native line
    (record tag .delta native lineNo outcome s).2 =
        (record tag .delta native lineNo outcome t).2 ∧
      ∀ k, BindsName native (.line line lineNo) k ∨ s.value k = t.value k →
        (record tag .delta native lineNo outcome s).1.value k =
          (record tag .delta native lineNo outcome t).1.value k := by
  intro outcome
  have hother : (∀ k v quoting, outcome ≠ .accepted k v quoting) →
      ∀ k, BindsName native (.line line lineNo) k ∨ s.value k = t.value k →
        s.value k = t.value k := by
    rintro hno k (⟨v, quoting, hk⟩ | hk)
    · exact absurd hk (hno k v quoting)
    · exact hk
  cases ho : outcome with
  | skipped => exact ⟨rfl, hother (by rw [ho]; rintro _ _ _ ⟨⟩)⟩
  | rejected code => exact ⟨rfl, hother (by rw [ho]; rintro _ _ _ ⟨⟩)⟩
  | accepted key v quoting =>
      obtain ⟨-, hnul, -⟩ := outcome_accepted ho
      have hresolved : resolvedValue tag native lineNo quoting v s =
          resolvedValue tag native lineNo quoting v t := by
        refine resolvedValue_congr native (nulFree_of_accepted hnul ho).2 ?_
        intro hq name hname
        exact hreads name ⟨key, v, quoting, ho, hq, hname⟩
      show Out.check + (accept tag .delta native lineNo key v quoting s).2 =
          Out.check + (accept tag .delta native lineNo key v quoting t).2 ∧
        ∀ k, _ → (accept tag .delta native lineNo key v quoting s).1.value k =
          (accept tag .delta native lineNo key v quoting t).1.value k
      rw [accept_delta, accept_delta, hresolved]
      refine ⟨rfl, ?_⟩
      intro k hk
      rw [envTableSetN_value, envTableSetN_value]
      by_cases hkey : k = key
      · rw [hkey, Function.update_self, Function.update_self]
      · rw [Function.update_of_ne hkey, Function.update_of_ne hkey]
        rcases hk with ⟨v', quoting', hk⟩ | hk
        · exact absurd (Outcome.accepted.inj (ho.symm.trans hk)).1.symm hkey
        · exact hk

theorem respects_event {cfg : Config} (tag : Bytes) :
    Respects (use cfg.native) EnvTable.value (eventStep .c (cfg.withAction .delta) tag) := by
  intro event s t hreads
  cases event with
  | tooLong => exact ⟨rfl, fun k hk => hk.resolve_left id⟩
  | unreadable => exact ⟨rfl, fun k hk => hk.resolve_left id⟩
  | line bytes lineNo =>
      obtain ⟨hout, hvalue⟩ := @record_agree cfg.native tag bytes lineNo s t hreads
      show (body .c (cfg.withAction .delta) tag bytes lineNo s).2 =
          (body .c (cfg.withAction .delta) tag bytes lineNo t).2 ∧
        ∀ k, _ → (body .c (cfg.withAction .delta) tag bytes lineNo s).1.value k =
          (body .c (cfg.withAction .delta) tag bytes lineNo t).1.value k
      rw [body_withAction cfg (by rintro ⟨⟩)]
      exact ⟨congrArg (Out.hand bytes lineNo + ·) hout, hvalue⟩

end Record

/-! ## Runs -/

section Run

variable (cfg : Config)

/-- What the reading loop does with a file argument. -/
def fileEvents (file : File) : List StreamEvent :=
  match fopen file with
  | none => []
  | some f =>
      match prePasses cfg f with
      | .error _ => []
      | .ok data => streamEvents (stripFlag cfg data) cfg.shellCont (Stream.ofBytes data)

/-- A file argument is rejected with one diagnostic, or its events are
processed one by one, whatever the action. -/
theorem processArg_events (backend : Backend) (file : File) :
    (fileEvents cfg file = [] ∧ ∃ code : Code, code.isRecordCode = false ∧ ∀ action,
      processArg backend (cfg.withAction action) file =
        Step.emit (Out.diag ⟨code, none, file.path, none⟩)) ∨
    ∀ action, processArg backend (cfg.withAction action) file =
      Step.run (eventStep backend (cfg.withAction action) file.path) (fileEvents cfg file) := by
  cases hopen : fopen file with
  | none =>
      left
      rw [fileEvents, hopen]
      refine ⟨rfl, .cannotOpen, rfl, ?_⟩
      intro action
      rw [processArg, hopen]
  | some f =>
      have harg : ∀ action, processArg backend (cfg.withAction action) file =
          processFile backend (cfg.withAction action) file.path f := by
        intro action
        rw [processArg, hopen]
      have hpasses : ∀ action, prePasses (cfg.withAction action) f = prePasses cfg f :=
        fun _ => rfl
      cases hpass : prePasses cfg f with
      | error code =>
          left
          rw [fileEvents, hopen]
          simp only [hpass]
          refine ⟨trivial, code, prePasses_code hpass, ?_⟩
          intro action
          rw [harg, processFile_events, hpasses, hpass]
      | ok data =>
          right
          intro action
          rw [harg, processFile_events, hpasses, hpass, fileEvents, hopen]
          simp only [hpass]
          rfl

theorem respects_file :
    Respects ((use cfg.native).lift (fileEvents cfg)) EnvTable.value
      (processArg .c (cfg.withAction .delta)) := by
  intro file s t hreads
  rcases processArg_events cfg .c file with ⟨hnil, code, -, hemit⟩ | hrun
  · -- a rejected file binds nothing
    rw [hemit]
    refine ⟨rfl, ?_⟩
    rintro k (⟨a, ha, -⟩ | hk)
    · rw [hnil] at ha
      exact absurd ha List.not_mem_nil
    · exact hk
  · have hlive : ∀ k, Live (use cfg.native) k (fileEvents cfg file) → s.value k = t.value k :=
      hreads
    obtain ⟨hout, hvalue⟩ := run_agree (respects_event file.path) hlive
    rw [hrun]
    refine ⟨hout, ?_⟩
    rintro k (⟨a, ha, hbinds⟩ | hk)
    · exact hvalue k (Or.inl ⟨a, ha, hbinds⟩)
    · exact hvalue k (Or.inr hk)

/-- A name that a substituted value refers to before any accepted record of the
run has bound it. -/
def FreeName (files : List File) (name : Bytes) : Prop :=
  ∃ pre event post, files.flatMap (fileEvents cfg) = pre ++ event :: post ∧
    Refers cfg.native event name ∧ ∀ e ∈ pre, ¬ BindsName cfg.native e name

theorem seeded_congr {environ environ' : Environ} (hnul : ∀ e ∈ environ, Byte.nul ∉ e)
    (hnul' : ∀ e ∈ environ', Byte.nul ∉ e) {name : Bytes}
    (h : seed environ name = seed environ' name) :
    (envTableInitFromProcess environ).value name =
      (envTableInitFromProcess environ').value name := by
  obtain ⟨-, hvalue⟩ := envTableInitFromProcess_spec hnul
  obtain ⟨-, hvalue'⟩ := envTableInitFromProcess_spec hnul'
  rw [hvalue, hvalue', seeded, seeded]
  let keep : Bytes → Bool := fun k => k != [] && !envfilePrefix.isPrefixOf k
  cases hkeep : keep name with
  | true =>
      have hseed : ∀ es : Environ,
          assign empty ((es.filterMap splitEquals).filter fun b => keep b.1) name = seed es name :=
        fun es => assign_filter hkeep _ _
      exact (hseed environ).trans (h.trans (hseed environ').symm)
  | false =>
      -- neither table has the name
      have hnone : ∀ es : Environ, name ∉
          ((es.filterMap splitEquals).filter fun b => keep b.1).map Prod.fst := by
        intro es hmem
        obtain ⟨b, hb, rfl⟩ := List.mem_map.mp hmem
        rw [(List.mem_filter.mp hb).2] at hkeep
        cases hkeep
      rw [assign_of_not_mem (hnone environ), assign_of_not_mem (hnone environ')]

/-- `delta` depends on the seed through the free names of the run alone. -/
theorem delta_agree {environ environ' : Environ} (hnul : ∀ e ∈ environ, Byte.nul ∉ e)
    (hnul' : ∀ e ∈ environ', Byte.nul ∉ e) {files : List File}
    (h : ∀ name, FreeName cfg files name → seed environ name = seed environ' name) :
    runFiles .c (cfg.withAction .delta) environ files =
      runFiles .c (cfg.withAction .delta) environ' files := by
  have hlive : ∀ name, Live ((use cfg.native).lift (fileEvents cfg)) name files →
      (envTableInitFromProcess environ).value name =
        (envTableInitFromProcess environ').value name := by
    intro name hname
    rw [live_flatMap, live_iff] at hname
    exact seeded_congr hnul hnul' (h name hname)
  obtain ⟨hout, -⟩ := run_agree (respects_file cfg) hlive
  have htotal : (runFiles .c (cfg.withAction .delta) environ files).out =
      (runFiles .c (cfg.withAction .delta) environ' files).out := by
    have hemit := emitted_of_ne (cfg.withAction .delta) (by rintro ⟨⟩)
    rw [runFiles_out, runFiles_out, hemit, hemit]
    exact congrArg (· + 0) hout
  exact congrArg (fun out => Report.mk out (if out.errors > 0 then 1 else 0)) htotal

/-- A file in which `A` is free, and `B` and `C` are not. -/
theorem delta_agree_shadowed :
    let files := [File.readable [] (ascii "B=x$A\nC=$B\n")]
    runFiles .c (Config.default.withAction .delta) [ascii "A=1"] files =
      runFiles .c (Config.default.withAction .delta) [ascii "B=2", ascii "A=1", ascii "C=3"]
        files := by
  refine delta_agree .default (by decide) (by decide) ?_
  intro name hname
  have hlive := (live_iff (use Config.default.native)).mpr hname
  have hevents : [File.readable [] (ascii "B=x$A\nC=$B\n")].flatMap (fileEvents .default) =
      [.line (ascii "B=x$A") 1, .line (ascii "C=$B") 2] := by decide
  have hfirst : outcome false (ascii "B=x$A") = .accepted (ascii "B") (ascii "x$A") .plain := by
    decide
  have hsecond : outcome false (ascii "C=$B") = .accepted (ascii "C") (ascii "$B") .plain := by
    decide
  have htokens : tokens (ascii "x$A") = [.byte 120, .ref (ascii "A")] := by decide
  have htokens' : tokens (ascii "$B") = [.ref (ascii "B")] := by decide
  rw [hevents] at hlive
  rcases hlive with ⟨k, v, quoting, ho, -, href⟩ | ⟨hbinds, ⟨k, v, quoting, ho, -, href⟩ | h⟩
  · obtain ⟨rfl, rfl, rfl⟩ := Outcome.accepted.inj (hfirst.symm.trans ho)
    rw [htokens] at href
    rcases List.mem_cons.mp href with h | href
    · cases h
    · obtain rfl := Token.ref.inj (List.mem_singleton.mp href)
      rfl
  · -- the second line refers to what the first one binds
    obtain ⟨rfl, rfl, rfl⟩ := Outcome.accepted.inj (hsecond.symm.trans ho)
    rw [htokens', List.mem_singleton] at href
    obtain rfl := Token.ref.inj href
    exact absurd ⟨_, _, hfirst⟩ hbinds
  · exact absurd h.2 id

end Run

end Envfile.C

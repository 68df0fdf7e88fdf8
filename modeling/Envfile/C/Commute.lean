/-
# `Envfile.C.Commute` — records that commute

`apply` resolves the value of a record in the environment that the lines before
it have left.  Of two adjacent records with different keys, neither of which
refers to the key of the other, each finds what it refers to in either order
(`effect_comm`): both orders leave the same environment and report the same
unbound names.  What comes after sees the environment alone, and what is printed
in the end is its one listing.
-/
import Envfile.C.Apply
import Envfile.C.Concat
import Envfile.C.Refines
import Mathlib.Algebra.Order.Group.Multiset

namespace Envfile.C

open Assign Meaning

/-! ## What a line does, wherever it is -/

/-- A diagnostic without its place. -/
def report (d : Diag) : Code × Option Bytes := (d.code, d.name)

/-- What is reported, in any order. -/
def reported : Out Nat →+ Multiset (Code × Option Bytes) where
  toFun o := Multiset.ofList (o.diags.map report)
  map_zero' := rfl
  map_add' o p := by
    rw [Out.add_diags, List.map_append, Multiset.coe_add]

/-- The reports of some unbound names. -/
def unboundReports (names : List Bytes) : Multiset (Code × Option Bytes) :=
  Multiset.ofList (names.map fun name => (.unboundRef, some name))

theorem reported_unbound (path : Bytes) (lineNo : Nat) (names : List Bytes) :
    reported (Out.unbound path lineNo names) = unboundReports names := by
  rw [Out.unbound_eq]
  show Multiset.ofList ((names.map _).map report) = _
  rw [List.map_map]
  rfl

section Effect

variable (native : Bool)

/-- What `apply` makes of a line: the environment after it and what is reported. -/
def effect (text : Bytes) : Step Env (Multiset (Code × Option Bytes)) := fun env =>
  match outcome native text with
  | .skipped => (env, 0)
  | .rejected code => (env, {(code, none)})
  | .accepted k v quoting =>
      let resolved := Meaning.resolve native quoting v env
      (Function.update env k (some resolved.1), unboundReports resolved.2)

theorem line_effect (path : Bytes) (lineNo : Nat) (text : Bytes) (env : Env) :
    let written := Meaning.line native .apply (outcome native) path lineNo text env
    (written.1, reported written.2) = effect native text env ∧ written.2.stdout = [] := by
  intro written
  have hline : written = Step.prepend (Out.hand text lineNo)
      (Meaning.record native .apply path lineNo (outcome native text)) env := rfl
  rw [hline, effect]
  cases outcome native text with
  | skipped => exact ⟨rfl, rfl⟩
  | rejected code => exact ⟨rfl, rfl⟩
  | accepted k v quoting =>
      let resolved := Meaning.resolve native quoting v env
      let out : Out Nat :=
        Out.hand text lineNo + (Out.check + (Out.unbound path lineNo resolved.2 + 0))
      have hreported : reported out = unboundReports resolved.2 := by
        show reported (_ + (_ + (_ + 0))) = _
        rw [add_zero, map_add, map_add, reported_unbound]
        exact (zero_add _).trans (zero_add _)
      have hstdout : out.stdout = [] := by
        show [] ++ ([] ++ ((Out.unbound path lineNo resolved.2).stdout ++ [])) = []
        rw [Out.unbound_eq]
        rfl
      exact ⟨congrArg (Function.update env k (some resolved.1), ·) hreported, hstdout⟩

/-- Two accepted records, neither of which refers to the key of the other. -/
def Independent (l₁ l₂ : Bytes) : Prop :=
  ∃ k₁ v₁ quoting₁ k₂ v₂ quoting₂, outcome native l₁ = .accepted k₁ v₁ quoting₁ ∧
    outcome native l₂ = .accepted k₂ v₂ quoting₂ ∧ k₁ ≠ k₂ ∧
    (native = true ∨ quoting₁ ≠ .single → .ref k₂ ∉ tokens v₁) ∧
    (native = true ∨ quoting₂ ≠ .single → .ref k₁ ∉ tokens v₂)

theorem resolve_update {quoting : Quoting} {v k : Bytes}
    (h : native = true ∨ quoting ≠ .single → .ref k ∉ tokens v) (env : Env) (x : Option Bytes) :
    Meaning.resolve native quoting v (Function.update env k x) =
      Meaning.resolve native quoting v env := by
  rw [Meaning.resolve, Meaning.resolve]
  split
  · rename_i hsubst
    rw [Bool.or_eq_true, bne_iff_ne] at hsubst
    refine subst_congr _ ?_
    intro name hname
    refine Function.update_of_ne ?_ _ _
    rintro rfl
    exact h hsubst hname
  · rfl

theorem effect_comm {l₁ l₂ : Bytes} (h : Independent native l₁ l₂) (env : Env) :
    Step.run (effect native) [l₁, l₂] env = Step.run (effect native) [l₂, l₁] env := by
  obtain ⟨k₁, v₁, quoting₁, k₂, v₂, quoting₂, h₁, h₂, hkeys, hfree₁, hfree₂⟩ := h
  simp only [Step.run_cons, Step.run_nil, effect, h₁, h₂, add_zero]
  rw [resolve_update native hfree₁, resolve_update native hfree₂, Function.update_comm hkeys,
    add_comm]

end Effect

/-! ## Files -/

section Files

variable {cfg : Config} (hplain : cfg.Plain) (happly : cfg.action = .apply)

theorem run_effect (native : Bool) (path : Bytes) (lines : List Bytes) (env : Env) :
    let written := Step.run
      (fun p => Meaning.line native .apply (outcome native) path p.2 p.1) (Lines.number 0 lines) env
    (written.1, reported written.2) = Step.run (effect native) lines env ∧
      written.2.stdout = [] := by
  intro written
  refine ⟨?_, ?_⟩
  · rw [← Step.run_hom]
    rw [Step.run_congr (fun p _ env => (line_effect native path p.2 p.1 env).1),
      ← Step.run_map (effect native) Prod.fst, Lines.number_fst]
  · refine Step.run_out (fun _ => True) (fun o : Out Nat => o.stdout = []) rfl ?_ ?_ trivial
    · intro o p ho hp
      rw [Out.add_stdout, ho, hp]
      rfl
    · intro p _ env _
      exact ⟨trivial, (line_effect native path p.2 p.1 env).2⟩

theorem envTableEmitSorted_congr {env env' : EnvTable} {m : Env} (h : Represents env m)
    (h' : Represents env' m) : envTableEmitSorted env = envTableEmitSorted env' := by
  have hlists := envTableEmitSorted_lists h.1
  have hlists' := envTableEmitSorted_lists h'.1
  rw [h.2] at hlists
  rw [h'.2] at hlists'
  exact hlists.unique hlists'

include hplain happly

/-- What a run over one file prints and reports is decided by the effect of its
lines on the seed. -/
theorem runFiles_effect {environ : Environ} (henviron : ∀ e ∈ environ, Byte.nul ∉ e)
    (path : Bytes) {f : Bytes} (hfit : LinesFit f) (hnul : Byte.nul ∉ f) :
    let total := (runFiles .c cfg environ [.readable path f]).out
    let effects := Step.run (effect cfg.native) (Lines.lines Byte.nl f)
      (assign empty (seeded environ))
    (∃ env, Represents env effects.1 ∧ total.stdout = envTableEmitSorted env) ∧
      Multiset.ofList (total.diags.map report) = effects.2 := by
  intro total effects
  have hseed : Represents (initialTable cfg environ) (assign empty (seeded environ)) := by
    rw [initialTable, happly]
    exact envTableInitFromProcess_spec henviron
  have hrefines : Refines Represents (processFile .c cfg path (Stream.ofBytes f))
      (Step.run (fun p => Meaning.line cfg.native .apply (outcome cfg.native) path p.2 p.1)
        (Lines.number 0 (Lines.lines Byte.nl f))) := by
    rw [processFile_plain .c hplain path hnul hfit]
    refine Refines.run ?_
    intro p hp
    have hline : Byte.nul ∉ p.1 := fun h =>
      hnul (Lines.mem_of_mem_lines Byte.nl (Lines.mem_number hp) h)
    have h : Refines Represents (body .c cfg path p.1 p.2)
        (Meaning.line cfg.native cfg.action (outcome cfg.native) path p.2 p.1) :=
      body_refines hline rfl path p.2
    rwa [happly] at h
  obtain ⟨hstate, hout⟩ := hrefines _ _ hseed
  obtain ⟨heffects, hsilent⟩ := run_effect cfg.native path (Lines.lines Byte.nl f)
    (assign empty (seeded environ))
  have htotal : total = _ := runFiles_one .c cfg environ path f
  rw [hout, emitted, if_pos happly] at htotal
  refine ⟨⟨(processFile .c cfg path (Stream.ofBytes f) (initialTable cfg environ)).1, ?_, ?_⟩, ?_⟩
  · rwa [congrArg Prod.fst heffects] at hstate
  · rw [htotal]
    exact congrArg (· ++ _) hsilent
  · rw [htotal, ← congrArg Prod.snd heffects]
    exact congrArg (fun ds => Multiset.ofList (ds.map report)) (List.append_nil _)

/-- Swapping two independent records on adjacent lines changes nothing of what
`apply` prints, and no diagnostic but for its place and its turn. -/
theorem apply_swap (hreject : cfg.nulReject = true) {environ : Environ}
    (henviron : ∀ e ∈ environ, Byte.nul ∉ e) (path : Bytes) {f f' : Bytes} (hfit : LinesFit f)
    {pre post : List Bytes} {l₁ l₂ : Bytes} (hf : Lines.lines Byte.nl f = pre ++ l₁ :: l₂ :: post)
    (hf' : Lines.lines Byte.nl f' = pre ++ l₂ :: l₁ :: post)
    (hindependent : Independent cfg.native l₁ l₂) :
    let report := runFiles .c cfg environ [.readable path f]
    let report' := runFiles .c cfg environ [.readable path f']
    report.out.bytes = report'.out.bytes ∧
      (report.out.diags.map fun d => (d.code, d.name)).Perm
        (report'.out.diags.map fun d => (d.code, d.name)) := by
  intro written written'
  have hmem : ∀ l, l ∈ Lines.lines Byte.nl f' ↔ l ∈ Lines.lines Byte.nl f := by
    intro l
    rw [hf, hf']
    exact ((List.Perm.swap l₁ l₂ post).append_left pre).mem_iff
  have hfit' : LinesFit f' := fun l hl => hfit l ((hmem l).mp hl)
  have hnul : ∀ g : Bytes, Byte.nul ∈ g ↔ ∃ l ∈ Lines.lines Byte.nl g, Byte.nul ∈ l := fun g =>
    ⟨Lines.exists_line_of_mem Byte.nl (by decide), fun ⟨_, hl, hmem⟩ =>
      Lines.mem_of_mem_lines Byte.nl hl hmem⟩
  have hnul' : Byte.nul ∈ f' ↔ Byte.nul ∈ f := by
    rw [hnul f, hnul f']
    simp only [hmem]
  by_cases h : Byte.nul ∈ f
  · -- both files are rejected
    have hrejected : ∀ g, Byte.nul ∈ g → (runFiles .c cfg environ [.readable path g]).out =
        Out.diag ⟨.fileNul, none, path, none⟩ + emitted cfg (initialTable cfg environ) := by
      intro g hg
      rw [runFiles_one, processFile_events, prePasses_eq, if_pos ⟨hreject, hg⟩]
      rfl
    show written.out.bytes = written'.out.bytes ∧ _
    rw [hrejected f h, hrejected f' (hnul'.mpr h)]
    exact ⟨rfl, List.Perm.refl _⟩
  · obtain ⟨⟨env, henv, hstdout⟩, hdiags⟩ := runFiles_effect hplain happly henviron path hfit h
    obtain ⟨⟨env', henv', hstdout'⟩, hdiags'⟩ :=
      runFiles_effect hplain happly henviron path hfit' (fun h' => h (hnul'.mp h'))
    have hswap := Step.run_swap (effect_comm cfg.native hindependent) pre post
      (assign empty (seeded environ))
    rw [hf, hswap] at henv hdiags
    rw [hf'] at henv' hdiags'
    refine ⟨?_, ?_⟩
    · show written.out.bytes = written'.out.bytes
      rw [Out.bytes, Out.bytes, hstdout, hstdout', envTableEmitSorted_congr henv henv']
    · exact Multiset.coe_eq_coe.mp (hdiags.trans hdiags'.symm)

end Files

/-- `A` and `B` commute; `C` refers to both, and to a name that is unbound. -/
theorem apply_swap_two :
    let cfg := Config.plain false .apply
    let report := runFiles .c cfg [ascii "X=1"] [.readable [] (ascii "A=$X$N\nB='$A'\nC=$A$B$M\n")]
    let report' := runFiles .c cfg [ascii "X=1"] [.readable [] (ascii "B='$A'\nA=$X$N\nC=$A$B$M\n")]
    report.out.bytes = report'.out.bytes ∧
      (report.out.diags.map fun d => (d.code, d.name)).Perm
        (report'.out.diags.map fun d => (d.code, d.name)) := by
  have hindependent : Independent false (ascii "A=$X$N") (ascii "B='$A'") := by
    refine ⟨ascii "A", ascii "$X$N", .plain, ascii "B", ascii "$A", .single, by decide, by decide,
      by decide, fun _ => by decide, ?_⟩
    rintro (⟨⟨⟩⟩ | h)
    exact absurd rfl h
  have hlines : Lines.lines Byte.nl (ascii "A=$X$N\nB='$A'\nC=$A$B$M\n") =
      [] ++ ascii "A=$X$N" :: ascii "B='$A'" :: [ascii "C=$A$B$M"] := by decide
  have hlines' : Lines.lines Byte.nl (ascii "B='$A'\nA=$X$N\nC=$A$B$M\n") =
      [] ++ ascii "B='$A'" :: ascii "A=$X$N" :: [ascii "C=$A$B$M"] := by decide
  exact apply_swap (plain_plain false .apply) rfl rfl (by decide) [] (by decide) hlines hlines'
    hindependent

end Envfile.C

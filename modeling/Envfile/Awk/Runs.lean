/-
# `Envfile.Awk.Runs` — the reference conforms

The reference classifies by the format itself, and its runs mean what they mean
in `Envfile.Runs`, with three provisos (`Admits`).  It renames the argument `-`
and drops the empty one; it looks for a NUL while it reads, so that it finds one
in a file whose reading fails; and a record whose value is the string that
`unquote` returns on an error is lost.  Its first line starts it with `LC_ALL=C`,
which is then one of the variables that it sees.

In whatever order the arrays are gone over, it shows what the run means
(`program_conforms`).
-/
import Envfile.Awk.Conservation
import Envfile.Awk.Sort
import Envfile.Lib.Assoc
import Envfile.Runs

namespace Envfile.Awk

open Assign Meaning

/-- The lines on which the action does not depend on the value, or whose value
is not the sentinel. -/
def KeepsValue (cfg : Knobs) (line : Bytes) : Prop :=
  cfg.action = some .normalize ∨ cfg.action = some .validate ∨ ¬ SohValue cfg.native line

instance (cfg : Knobs) (line : Bytes) : Decidable (KeepsValue cfg line) :=
  inferInstanceAs (Decidable (_ ∨ _ ∨ ¬ _))

/-- A file that the reference reads as the format says. -/
structure Admits (cfg : Knobs) (file : File) : Prop where
  named : file.path ≠ []
  notStdin : file.path ≠ [Byte.dash]
  reads : file.opens = true → file.failed = true → cfg.nulReject = true →
    Byte.nul ∉ file.contents
  keeps : ∀ p ∈ handed cfg file, KeepsValue cfg p.1

/-- What the reference has of its own.  Its numbers are floating point, and
count up to `2 ^ 53`. -/
def dialect : Dialect where
  classify := reference
  spell := id
  limit := 2 ^ 53
  seeds := fun _ environ => getenv environ (ascii "LC_ALL") = some (ascii "C")
  admits := Admits
  rereads := true

/-! ## Files -/

section Files

variable {cfg : Knobs}

theorem physical_eq (f : Bytes) :
    (if cfg.nulReject = true ∧ Byte.nul ∈ f then .error .fileNul
      else (bomPass cfg (Lines.lines Byte.nl f)).map fun lines =>
        if cfg.crlfStrip then stripCrlf lines else lines) = physical cfg f := by
  have hstrip : ∀ ls, (if cfg.crlfStrip then stripCrlf ls else ls) = stripCrs cfg ls := by
    intro ls
    rw [stripCrs, stripCrlf_eq]
    cases cfg.crlfStrip <;> rfl
  simp only [bomPass_lines, hstrip, physical]
  split
  · rfl
  split
  · cases cfg.bom <;> rfl
  · rfl

theorem readLines_logical {file : File} (h : Admits cfg file) :
    (readLines cfg file).map (Meaning.logical cfg) = readFile cfg file := by
  by_cases hread : file.opens = true ∧ file.failed = false
  · have hfile : readLines cfg file = physical cfg file.contents := by
      rw [← physical_eq, ← readLines_eq cfg file.path]
      obtain ⟨path, opens, contents, failed⟩ := file
      obtain ⟨rfl, rfl⟩ : opens = true ∧ failed = false := hread
      rfl
    rw [hfile, readFile, hread.1, hread.2]
    rfl
  · have hfails : (!file.opens || file.failed) = true := by
      rw [Bool.or_eq_true, Bool.not_eq_true', ← Bool.not_eq_true, ← not_and_or.trans
        (or_congr_right (by rw [Bool.not_eq_false]))]
      exact hread
    rw [readFile, if_pos hfails, readLines, if_neg, if_pos hfails]
    · rfl
    · rw [Bool.and_eq_true]
      rintro ⟨hreject, hnul⟩
      cases hopens : file.opens with
      | false =>
          rw [hopens] at hnul
          cases hnul
      | true =>
          have hfailed : file.failed = true := by
            rw [hopens] at hfails
            exact hfails
          rw [hopens, if_pos rfl] at hnul
          exact h.reads hopens hfailed hreject ((any_index_nul _).mp hnul)

end Files

/-! ## Lines -/

/-- The array has the bindings of the environment. -/
def Represents (env : EnvArray) (m : Env) : Prop := env.lookup = m

section Line

variable {cfg : Knobs} {action : Action} (hact : cfg.action = some action) (path : Bytes)
  (lineno : Nat)

include hact

theorem accept_refines (k v : Bytes) (quoting : Quoting)
    (hkeeps : action = .validate ∨ v ≠ sentinel) (hnorm : action ≠ .normalize) :
    Refines Represents (accept cfg path lineno k v quoting)
      (Meaning.accept cfg.native action path lineno k v quoting) := by
  rintro env m rfl
  have hvalue : (if cfg.native || quoting != .single then subst v path lineno env else (v, 0) :
        Bytes × Out Nat) =
      ((Meaning.resolve cfg.native quoting v env.lookup).1,
        Out.unbound path lineno (Meaning.resolve cfg.native quoting v env.lookup).2) := by
    rw [Meaning.resolve, subst_eq]
    split <;> rfl
  have hset := Assoc.lookup_insert env k (Meaning.resolve cfg.native quoting v env.lookup).1
  have hsoh : ∀ {h : action ≠ .validate}, (v == sentinel) = false := by
    intro h
    rw [beq_eq_false_iff_ne]
    exact hkeeps.resolve_left h
  rw [accept, hact]
  cases action with
  | normalize => exact absurd rfl hnorm
  | validate =>
      simp only [reduceCtorEq, if_false, Option.some.injEq]
      split
      · exact ⟨rfl, (map_zero _).symm⟩
      · exact ⟨rfl, (map_zero _).symm⟩
  | dump =>
      rw [hsoh (h := by decide)]
      exact ⟨rfl, (toOut_print k v).symm⟩
  | delta =>
      rw [hsoh (h := by decide)]
      simp only [Bool.false_eq_true, if_false, Option.some.injEq, reduceCtorEq, hvalue, if_true]
      refine ⟨hset, ?_⟩
      show _ + Out.print k _ = toOut Nat (_ + Out.print k _)
      rw [map_add, toOut_unbound, toOut_print]
  | apply =>
      rw [hsoh (h := by decide)]
      simp only [Bool.false_eq_true, if_false, Option.some.injEq, reduceCtorEq, hvalue]
      refine ⟨hset, ?_⟩
      show _ + 0 = toOut Nat (_ + 0)
      rw [map_add, toOut_unbound, map_zero]

theorem validate_refines {line : Bytes} (hkeeps : KeepsValue cfg line) :
    Refines Represents (validate cfg path lineno line)
      (Meaning.line cfg.native action (reference cfg.native) path lineno line) := by
  rw [Meaning.line]
  by_cases hnorm : action = .normalize
  · have hwrites : validate cfg path lineno line = Step.prepend (Out.hand line lineno)
        (Step.emit (toOut Nat (Meaning.printed path lineno line))) := by
      rw [validate_normalize cfg path lineno line (by rw [hact, hnorm]), Meaning.printed]
      congr 1
      split
      · rw [map_zero]
        rfl
      rw [map_add, toOut_check]
      cases splitEquals line with
      | none =>
          rw [toOut_diag]
          rfl
      | some b =>
          rw [toOut_print]
          rfl
    have h := (Refines.emit (R := Represents) (ι := Nat) (Meaning.printed path lineno line)).prepend
      (Out.hand line lineno)
    rw [hwrites, if_pos hnorm]
    rwa [toOut_hand] at h
  · have hne : cfg.action ≠ some .normalize := by
      rw [hact]
      exact fun h => hnorm (Option.some.inj h)
    have hrecord : Refines Represents (record cfg path lineno (reference cfg.native line))
        (Meaning.record cfg.native action path lineno (reference cfg.native line)) := by
      cases ho : reference cfg.native line with
      | skipped => exact fun s m hR => ⟨hR, (map_zero _).symm⟩
      | rejected code =>
          have h := Refines.emit (R := Represents) (ι := Nat)
            (Out.check + Out.diag ⟨code, none, path, some lineno⟩)
          rwa [map_add, toOut_check, toOut_diag] at h
      | accepted k v quoting =>
          have hvalue : action = .validate ∨ v ≠ sentinel := by
            rcases hkeeps with h | h | h
            · exact absurd h hne
            · rw [hact] at h
              exact Or.inl (Option.some.inj h)
            · refine Or.inr ?_
              rintro rfl
              exact h ((sohValue_iff cfg.native line).mpr ⟨k, quoting, ho⟩)
          have h := (accept_refines hact path lineno k v quoting hvalue hnorm).prepend Out.check
          rwa [toOut_check] at h
    have h := hrecord.prepend (Out.hand line lineno)
    rw [validate_eq hne, if_neg hnorm]
    rwa [toOut_hand] at h

omit path lineno in
theorem normalize_refines {file : File} (h : Admits cfg file) :
    Refines Represents (normalize cfg file) (ofFile reference action cfg file) := by
  have hread := readLines_logical h
  have hkeeps := h.keeps
  rw [ofFile]
  rw [handed, ← hread] at hkeeps
  rw [← hread]
  cases hlines : readLines cfg file with
  | error code =>
      have h := Refines.emit (R := Represents) (ι := Nat) (Out.diag ⟨code, none, file.path, none⟩)
      rw [toOut_diag] at h
      rwa [normalize, hlines]
  | ok ls =>
      rw [hlines] at hkeeps
      obtain ⟨path, opens, contents, failed⟩ := file
      obtain ⟨rfl, rfl⟩ : opens = true ∧ failed = false := by
        have hfile := readable_of_readLines hlines
        exact ⟨congrArg File.opens hfile, congrArg File.failed hfile⟩
      rw [show normalize cfg ⟨path, true, contents, false⟩ = _ from normalize_eq path contents hlines]
      exact Refines.run fun p hp => validate_refines hact path p.2 (hkeeps p hp)

end Line

/-! ## Runs -/

section Run

variable {cfg : Knobs} {action : Action} {environ : Environ} {files : List File}

theorem environArray_lookup (environ : Environ) :
    (environArray environ).lookup = assign empty (environ.filterMap splitEquals) := by
  have hentries : environArray environ = (environ.filterMap splitEquals).foldl
      (fun env b => env.insert b.1 b.2) ∅ := by
    rw [List.foldl_filterMap, environArray]
    congr 1
    funext env entry
    rcases line_shape entry with ⟨hno, hsplit⟩ | ⟨k, v, rfl, hk, hsplit⟩
    · rw [hsplit, show memchr entry Byte.equals = none from memchr_eq_none.mpr hno]
    · rw [hsplit, memchr_append hk v]
      simp only [take_before, drop_after]
  rw [hentries, Assoc.lookup_foldl_insert]
  rfl

theorem initialEnv_start (hact : cfg.action = some action) (environ : Environ) :
    Represents (initialEnv cfg environ) (start action environ) := by
  have hentries : (environArray environ).entries.foldl (fun env b =>
        if substr b.1 1 8 != envfilePrefix then env.insert b.1 b.2 else env) (∅ : EnvArray) =
      (Assoc.bindings (environArray environ)).foldl
        (fun env b => if envfilePrefix.isPrefixOf b.1 then env else env.insert b.1 b.2) ∅ := by
    rw [Assoc.bindings, List.foldl_map]
    congr 1
    funext env b
    rw [substr_envfile]
    cases envfilePrefix.isPrefixOf b.1 <;> rfl
  rw [initialEnv, start, hact, hentries]
  simp only [Option.some.injEq]
  split
  · rw [Represents, Assoc.lookup_foldl_unless, seed, assign_filter_not, ← environArray_lookup,
      ← Assoc.assign_bindings (environArray environ)]
    exact assign_filter_not _ _
  · rfl

theorem args_eq (h : ∀ file ∈ files, Admits cfg file) :
    ((files.map fun f => { f with path := argPath f.path }).filter fun f => f.path != []) =
      files := by
  have hmap : files.map (fun f => { f with path := argPath f.path }) = files := by
    refine (List.map_congr_left fun f hf => ?_).trans (List.map_id _)
    rw [argPath, if_neg (by rw [beq_iff_eq]; exact (h f hf).notStdin)]
    rfl
  rw [hmap, List.filter_eq_self]
  intro f hf
  rw [bne_iff_ne]
  exact (h f hf).named

theorem runFiles_eq {order : EnvArray → List Bytes} (horder : Iterates order)
    (hact : cfg.action = some action) (environ : Environ)
    (h : ∀ file ∈ files, Admits cfg file) :
    ∃ printed, Lists (shown action (ofRun reference action cfg environ files).1) printed ∧
      (runFiles cfg environ order files).out =
        toOut Nat (ofRun reference action cfg environ files).2 + Out.printAll printed := by
  obtain ⟨hstate, hout⟩ := Refines.run (fun file hfile => normalize_refines hact (h file hfile)) _ _
    (initialEnv_start hact environ)
  have hlisted : Lists (fun k => if envfilePrefix.isPrefixOf k then none else
      (ofRun reference action cfg environ files).1 k)
      (emitEnvSorted (Step.run (normalize cfg) files (initialEnv cfg environ)).1
        (order (Step.run (normalize cfg) files (initialEnv cfg environ)).1)) := by
    have hlookup : (Step.run (normalize cfg) files (initialEnv cfg environ)).1.lookup =
      (ofRun reference action cfg environ files).1 := hstate
    rw [← hlookup]
    exact emitEnvSorted_lists (horder _)
  refine ⟨_, lists_emitted hlisted action, ?_⟩
  rw [runFiles]
  simp only [args_eq h, hout, hact, Option.some.injEq]
  congr 1
  split <;> rfl

/-- The reference, its variables read. -/
def program (order : EnvArray → List Bytes) : Program := fun cfg environ files =>
  some (Observed.ofReport (runFiles cfg environ order files))

theorem program_conforms {order : EnvArray → List Bytes} (horder : Iterates order) :
    Conforms dialect (program order) := by
  rintro cfg action environ files hact - ⟨-, hadmits, -, hcount⟩
  obtain ⟨printed, hlists, hout⟩ := runFiles_eq horder hact environ hadmits
  have hspell := Out.respell_id (toOut Nat (ofRun dialect.classify action cfg environ files).2)
  refine ⟨_, rfl, shows_of_out hlists ?_ hcount (fun _ _ => rfl) ?_⟩
  · rw [hout]
    exact congrArg (· + _) hspell.symm
  · show (if (runFiles cfg environ order files).out.errors ≠ 0 then 1 else 0) = _
    rw [hout, Out.add_errors, Out.printAll_errors, add_zero]
    exact ite_not _ _ _

end Run

theorem sampleFiles_admits : ∀ file ∈ sampleFiles, Admits sampleKnobs file := by
  intro file hfile
  obtain rfl := List.mem_singleton.mp hfile
  exact ⟨by decide, by decide, by rintro - ⟨⟩, by decide +kernel⟩

theorem sampleEnviron_locale : getenv sampleEnviron (ascii "LC_ALL") = some (ascii "C") := by
  decide

end Envfile.Awk

/-
# `Envfile.Perl.Runs` — the Perl script conforms

A line means to the Perl script what `Perl.outcome` says, in native format too
without its CR; and on the runs it is meant for it shows what the run means
(`program_conforms`).

The script numbers the lines after the join, lets empty lines pass its CRLF test,
and does not look whether it could read (`Admits`).  The standard input is slurped
once: behind another `-` there is nothing, not even an empty string.  Stderr is its
own where the interpreter has nothing to warn of (`StartsQuietly`).
-/
import Envfile.Lib.Assoc
import Envfile.Perl.Classify
import Envfile.Port.Refines

namespace Envfile.Perl

open Assign Meaning

/-- A file that the Perl script reads as the format says. -/
structure Admits (cfg : Knobs) (file : File) : Prop where
  skips : port.SkipsBlank cfg file
  reads : file.opens = true → file.failed = false
  bom : cfg.bom = .strip → file.contents ≠ bomBytes
  crlf : cfg.crlfStrip = true → ∀ ls,
    physical { cfg with crlfStrip := false } file.contents = .ok ls → [] ∉ ls
  joins : cfg.contAccept = true → ∀ ls, physical cfg file.contents = .ok ls →
    ∀ l ∈ ls.dropLast, continues l = false

/-- The environments in which the interpreter has no locale to look for, or one that
every system has, and takes its options from nowhere. -/
structure StartsQuietly (environ : Environ) : Prop where
  locale : (∃ v, getenv environ (ascii "LC_ALL") = some v ∧ (v = ascii "C" ∨ v = ascii "POSIX")) ∨
    ∀ e ∈ environ, (ascii "LC_").isPrefixOf e = false ∧ (ascii "LANG").isPrefixOf e = false
  options : ∀ e ∈ environ, (ascii "PERL").isPrefixOf e = false

/-- What the Perl script has of its own. -/
def dialect (limit : Nat) : Dialect where
  classify := outcome
  spell := id
  limit := limit
  seeds := fun _ environ => StartsQuietly environ
  admits := Admits
  rereads := false

/-! ## Files -/

section Files

variable {cfg : Knobs}

theorem stripCrlf_nonempty {lines : List Bytes} (h : [] ∉ lines) :
    stripCrlf lines =
      if lines.all fun l => l.getLast? == some Byte.cr then lines.map trimCr else lines := by
  have hall : allCrlf lines = lines.all fun l => l.getLast? == some Byte.cr := by
    rw [allCrlf, Bool.eq_iff_iff, List.all_eq_true, List.all_eq_true]
    refine forall_congr' fun l => forall_congr' fun hl => ?_
    have hne : l ≠ [] := fun e => h (e ▸ hl)
    rw [Bool.or_eq_true, beq_iff_eq]
    exact or_iff_right hne
  rw [stripCrlf, hall]
  refine ite_congr rfl (fun _ => List.map_congr_left fun l hl => ?_) fun _ => rfl
  cases l with
  | nil => exact absurd hl h
  | cons c l => rfl

theorem readLines_eq {file : File} (h : Admits cfg file) :
    readLines cfg file.contents = physical cfg file.contents := by
  have hcrlf := h.crlf
  have hbom := h.bom
  generalize file.contents = f at *
  have hprefix : (f.take 3 == bomBytes) = bomBytes.isPrefixOf f := by
    have hlen : bomBytes.length = 3 := rfl
    rw [← hlen, take_beq]
  have hnul : (cfg.nulReject && (index f Byte.nul).isSome) = true ↔
      cfg.nulReject = true ∧ Byte.nul ∈ f := by
    rw [Bool.and_eq_true, show (index f Byte.nul).isSome = true ↔ Byte.nul ∈ f from memchr_isSome]
  -- what is done to the lines that are left
  have hstrip : ∀ ls, physical { cfg with crlfStrip := false } f = .ok ls →
      (if cfg.crlfStrip then stripCrlf ls else ls) = stripCrs cfg ls := by
    intro ls hls
    rw [stripCrs]
    cases hc : cfg.crlfStrip with
    | false => rfl
    | true =>
        rw [if_pos rfl, stripCrlf_nonempty (hcrlf hc ls hls), Bool.true_and]
  have hoff : ∀ ls, stripCrs { cfg with crlfStrip := false } ls = ls := fun _ => rfl
  simp only [physical, hoff] at hstrip
  rw [readLines, physical, hprefix]
  simp only [hnul, splitLines_eq]
  by_cases hreject : cfg.nulReject = true ∧ Byte.nul ∈ f
  · rw [if_pos hreject, if_pos hreject]
  rw [if_neg hreject, if_neg hreject]
  rw [if_neg hreject] at hstrip
  cases hhas : bomBytes.isPrefixOf f with
  | false =>
      rw [hhas] at hstrip
      exact congrArg Except.ok (hstrip _ rfl)
  | true =>
      rw [hhas, if_pos rfl] at hstrip
      cases hmode : cfg.bom with
      | reject => rfl
      | literal =>
          rw [hmode] at hstrip
          exact congrArg Except.ok (hstrip _ rfl)
      | strip =>
          rw [hmode] at hstrip
          obtain ⟨g, rfl⟩ := List.isPrefixOf_iff_prefix.mp hhas
          have hg : g ≠ [] := by
            rintro rfl
            exact hbom hmode (List.append_nil _)
          have hbehind : behindBom ((bomBytes ++ g).drop 3) = Lines.lines Byte.nl g := if_neg hg
          rw [hbehind] at hstrip
          show Except.ok (if cfg.crlfStrip then stripCrlf (Lines.lines Byte.nl g)
            else Lines.lines Byte.nl g) = .ok (stripCrs cfg (behindBom ((bomBytes ++ g).drop 3)))
          rw [hbehind, hstrip _ rfl]

theorem numberLines_logical {file : File} (h : Admits cfg file) {ls : List Bytes}
    (hls : physical cfg file.contents = .ok ls) :
    numberLines 0 (logicalLines cfg ls) = logical cfg ls := by
  rw [numberLines_eq, logicalLines_eq, logical]
  cases hcont : cfg.contAccept with
  | false => rfl
  | true =>
      rw [if_pos rfl, if_pos rfl, joinFrom_settled (h.joins hcont ls hls), Lines.number_fst]

end Files

/-! ## Lines -/

/-- The hash has the bindings of the environment. -/
def Represents (env : EnvHash) (m : Env) : Prop := env.lookup = m

theorem isMap : port.IsMap Represents where
  get := fun h => h
  set := by
    rintro env m rfl k v
    exact Assoc.lookup_insert env k v

theorem processArg_refines {cfg : Knobs} {action : Action} (hact : cfg.action = some action)
    {file : File} (h : Admits cfg file) :
    Refines Represents (processArg cfg file) (ofFile outcome action cfg file) := by
  have hdiag : ∀ code, Refines Represents (Step.emit (fdiag file.path code))
      (Step.emit (Out.diag ⟨code, none, file.path, none⟩)) := by
    intro code
    have h := Refines.emit (R := Represents) (ι := Nat) (Out.diag ⟨code, none, file.path, none⟩)
    rwa [toOut_diag] at h
  have hskip := h.skips
  rw [Port.SkipsBlank, handed, hact] at hskip
  rw [processArg, ofFile]
  cases hopens : file.opens with
  | false =>
      rw [readFile, hopens]
      exact hdiag .fileUnreadable
  | true =>
      have hread : readFile cfg file = (physical cfg file.contents).map (logical cfg) := by
        rw [readFile, hopens, h.reads hopens]
        rfl
      rw [hread] at hskip ⊢
      show Refines Represents (processFile cfg file.path file.contents) _
      rw [processFile, readLines_eq h]
      cases hls : physical cfg file.contents with
      | error code => exact hdiag code
      | ok ls =>
          rw [hls] at hskip
          show Refines Represents (Step.run _ (numberLines 0 (logicalLines cfg ls)))
            (Step.run _ (logical cfg ls))
          rw [numberLines_logical h hls]
          refine Refines.run fun p hp => ?_
          refine Port.line_refines isMap hact file.path p.2 (fun hne => ?_) (fun hnorm => ?_)
            fun hnorm => hskip (congrArg some hnorm) p hp
          · exact validateLine_eq cfg file.path p.2
              (by rw [hact]; exact fun h => hne (Option.some.inj h)) p.1
          · exact validateLine_normalize cfg file.path p.2 (by rw [hact, hnorm]) p.1

/-! ## Runs -/

section Run

variable {cfg : Knobs} {action : Action} {environ : Environ} {files : List File}

theorem envHash_lookup (environ : Environ) :
    (envHash environ).lookup = assign empty (environ.filterMap splitEquals) := by
  have hentries : envHash environ = (environ.filterMap splitEquals).foldl
      (fun env b => env.insert b.1 b.2) ∅ := by
    rw [List.foldl_filterMap, envHash]
    congr 1
    funext env entry
    rcases line_shape entry with ⟨hno, hsplit⟩ | ⟨k, v, rfl, hk, hsplit⟩
    · rw [hsplit, show index entry Byte.equals = none from memchr_eq_none.mpr hno]
    · rw [hsplit, show index (k ++ Byte.equals :: v) Byte.equals = some k.length from
        memchr_append hk v]
      simp only [take_before, drop_after]
  rw [hentries, Assoc.lookup_foldl_insert]
  rfl

theorem initialEnv_start (hact : cfg.action = some action) (environ : Environ) :
    Represents (initialEnv cfg environ) (start action environ) := by
  have hentries : (envHash environ).entries.foldl (fun env b =>
        if b.1.take 8 != envfilePrefix then env.insert b.1 b.2 else env) (∅ : EnvHash) =
      (Assoc.bindings (envHash environ)).foldl
        (fun env b => if envfilePrefix.isPrefixOf b.1 then env else env.insert b.1 b.2) ∅ := by
    rw [Assoc.bindings, List.foldl_map]
    congr 1
    funext env b
    rw [take_envfile]
    cases envfilePrefix.isPrefixOf b.1 <;> rfl
  rw [initialEnv, start, hact, hentries]
  simp only [Option.some.injEq]
  split
  · rw [Represents, Assoc.lookup_foldl_unless, seed, assign_filter_not, ← envHash_lookup,
      ← Assoc.assign_bindings (envHash environ)]
    exact assign_filter_not _ _
  · rfl

theorem emitEnvSorted_lists {env : EnvHash} {m : Env} (h : Represents env m) :
    Lists (fun k => if envfilePrefix.isPrefixOf k then none else m k) (emitEnvSorted env) := by
  subst h
  have hkeys : (env.keys.filter fun k => k.take 8 != envfilePrefix) =
      env.keys.filter fun k => !envfilePrefix.isPrefixOf k :=
    List.filter_congr fun k _ => take_envfile k
  rw [emitEnvSorted, hkeys]
  exact Assoc.sorted_lists (envfilePrefix.isPrefixOf ·) env (List.Perm.refl _) []

theorem runFiles_eq (hact : cfg.action = some action) (environ : Environ)
    (h : ∀ file ∈ files, Admits cfg file) :
    ∃ printed, Lists (shown action (ofRun outcome action cfg environ files).1) printed ∧
      (runFiles cfg environ files).out =
        toOut Nat (ofRun outcome action cfg environ files).2 + Out.printAll printed := by
  obtain ⟨hstate, hout⟩ := Refines.run (fun file hfile => processArg_refines hact (h file hfile))
    _ _ (initialEnv_start hact environ)
  refine ⟨_, lists_emitted (emitEnvSorted_lists hstate) action, ?_⟩
  rw [runFiles]
  simp only [hout, hact, Option.some.injEq]
  congr 1
  split <;> rfl

/-- The Perl script, its variables read. -/
def program : Program := fun cfg environ files =>
  some (Observed.ofReport (runFiles cfg environ files))

theorem program_conforms (limit : Nat) : Conforms (dialect limit) program := by
  rintro cfg action environ files hact - ⟨-, hadmits, -, hcount⟩
  obtain ⟨printed, hlists, hout⟩ := runFiles_eq hact environ hadmits
  have hspell := Out.respell_id (toOut Nat (ofRun outcome action cfg environ files).2)
  refine ⟨_, rfl, shows_of_out hlists ?_ hcount (fun _ _ => rfl) ?_⟩
  · rw [hout]
    exact congrArg (· + _) hspell.symm
  · show (if (runFiles cfg environ files).out.errors ≠ 0 then 1 else 0) = _
    rw [hout, Out.add_errors, Out.printAll_errors, add_zero]
    exact ite_not _ _ _

end Run

/-- The Perl script shows what its run means, however far it counts. -/
theorem perlMain_shows {limit : Nat} {environ : Environ} {cfg : Knobs} {action : Action}
    (hread : readKnobs environ = .ok cfg) (hact : cfg.action = some action)
    (henviron : Posix environ) (stdin : File) (args : List File)
    (hcovers : (dialect limit).Covers action cfg environ (arguments stdin args)) :
    ∃ r, main environ stdin args = .ok r ∧
      (dialect limit).Shows action cfg environ (arguments stdin args) (Observed.ofReport r) := by
  obtain ⟨o, ho, hshows⟩ := program_conforms limit cfg action environ _ hact henviron hcovers
  obtain rfl := Option.some.inj ho
  exact ⟨_, by rw [main, hread]; rfl, hshows⟩

theorem sampleFiles_admits : ∀ file ∈ sampleFiles, Admits sampleKnobs file := by
  intro file hfile
  obtain rfl := List.mem_singleton.mp hfile
  exact ⟨by rintro ⟨⟩, fun _ => rfl, fun _ => by decide, by rintro ⟨⟩, by rintro ⟨⟩⟩

theorem sampleEnviron_startsQuietly : StartsQuietly sampleEnviron :=
  ⟨Or.inl ⟨ascii "C", by decide, Or.inl rfl⟩, by decide⟩

theorem perlMain_shows_sample :
    ∃ r, main sampleEnviron sampleStdin sampleFiles = .ok r ∧
      (dialect 8).Shows .apply sampleKnobs sampleEnviron sampleFiles (Observed.ofReport r) :=
  perlMain_shows rfl rfl sampleEnviron_posix sampleStdin sampleFiles
    ⟨sampleEnviron_startsQuietly, sampleFiles_admits, by decide, by decide +kernel,
      by decide +kernel⟩

end Envfile.Perl

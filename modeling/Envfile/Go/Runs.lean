/-
# `Envfile.Go.Runs` — the Go program conforms

The passes of `processFile` leave the lines of `Envfile.Runs`
(`processArg_port`), and its loop is the shared one; so the program shows on
every run what the run means, in both formats and under all settings
(`program_conforms`).  Its counters are 64 bits wide and signed.
-/
import Envfile.Go.Refines
import Envfile.Port.Files
import Envfile.Port.Refines

namespace Envfile.Go

open Assign Meaning

/-- What the Go program has of its own. -/
def dialect : Dialect where
  classify := Port.outcome isBlank
  spell := id
  limit := 2 ^ 63
  seeds := fun _ _ => True
  admits := fun _ _ => True
  rereads := true

/-! ## Files -/

theorem firstLineBom (cfg : Knobs) : FirstLineBom cfg (bomPass cfg) := ⟨rfl, fun _ _ => rfl⟩

theorem gatherLoop : GatherLoop gather joinLines where
  ahead := by
    refine ⟨fun _ _ => rfl, ?_⟩
    intro line next lines i
    rw [gather, List.dropLast_eq_take]
    rfl
  nil := by
    intro rounds i
    cases rounds <;> rfl
  cons := fun _ _ _ _ => rfl

theorem readLines_eq (cfg : Knobs) (f : Bytes) : readLines cfg f = physical cfg f := by
  have hnul : (indexByte f Byte.nul).isSome = decide (Byte.nul ∈ f) := by
    rw [Bool.eq_iff_iff, decide_eq_true_iff]
    exact memchr_isSome
  rw [readLines, hnul, splitLines_eq]
  exact physical_eq (firstLineBom cfg) stripCrlf_eq f

theorem processArg_port (cfg : Knobs) (file : File) :
    processArg cfg file = port.processArg cfg file := by
  rw [processArg, Port.processArg, readFile]
  split
  · rfl
  rw [processFile, readLines_eq]
  cases physical cfg file.contents with
  | error code => rfl
  | ok lines =>
      have hlines : (if cfg.contAccept then joinLines lines.length lines 0
          else numberLines 0 lines) = logical cfg lines :=
        logical_eq gatherLoop numberLines_eq cfg lines
      simp only [hlines]
      funext env
      exact Step.run_congr (fun p _ s => congrFun (processLine_port file.path p.2 cfg p.1) s) env

/-! ## Runs -/

theorem isMap : port.IsMap Represents where
  get := fun h => h
  set := by
    rintro env m rfl k v
    exact Assoc.lookup_insert env k v

theorem processArg_refines {cfg : Knobs} {action : Action} (hact : cfg.action = some action)
    (file : File) :
    Refines Represents (processArg cfg file) (ofFile dialect.classify action cfg file) := by
  rw [processArg_port]
  exact Port.processArg_refines isMap hact (Port.skipsBlank_of_isBlank rfl cfg file)

theorem initialMap_start {cfg : Knobs} {action : Action} (hact : cfg.action = some action)
    {environ : Environ} (h : (seedNames environ).Nodup) :
    Represents (initialMap cfg environ) (start action environ) := by
  rw [initialMap, start, hact]
  simp only [Option.some.injEq]
  split
  · exact seedEnv_lookup h
  · rfl

theorem toString_cast {n : Nat} (h : n < 2 ^ 63) : toString (n : Int64) = toString n := by
  show toString (n : Int64).toInt = _
  rw [show (n : Int64).toInt = n from Int64.toInt_ofNat_of_lt h]
  rfl

theorem cast_pos {n : Nat} (h : n < 2 ^ 63) : (n : Int64) > 0 ↔ n ≠ 0 := by
  rw [gt_iff_lt, Int64.lt_iff_toInt_lt, show (n : Int64).toInt = n from Int64.toInt_ofNat_of_lt h]
  show (0 : Int) < n ↔ n ≠ 0
  omega

theorem runFiles_eq {cfg : Knobs} {action : Action} (hact : cfg.action = some action)
    {environ : Environ} (henviron : (seedNames environ).Nodup) (files : List File) :
    ∃ printed, Lists (shown action (ofRun dialect.classify action cfg environ files).1) printed ∧
      (runFiles cfg environ files).out =
        toOut Int64 (ofRun dialect.classify action cfg environ files).2 + Out.printAll printed := by
  obtain ⟨hstate, hout⟩ := Refines.run (fun file (_ : file ∈ files) =>
    processArg_refines hact file) _ _ (initialMap_start hact henviron)
  refine ⟨_, lists_emitted (emitSorted_lists hstate) action, ?_⟩
  rw [runFiles]
  simp only [hout, hact, Option.some.injEq]
  congr 1
  split <;> rfl

/-- The Go program, its variables read. -/
def program : Program := fun cfg environ files =>
  some (Observed.ofReport (runFiles cfg environ files))

theorem program_conforms : Conforms dialect program := by
  rintro cfg action environ files hact henviron ⟨-, -, -, hcount⟩
  obtain ⟨printed, hlists, hout⟩ := runFiles_eq hact henviron.unique files
  have hspell := Out.respell_id (toOut Int64 (ofRun dialect.classify action cfg environ files).2)
  refine ⟨_, rfl, shows_of_out hlists ?_ hcount (fun n hn => toString_cast hn) ?_⟩
  · rw [hout]
    exact congrArg (· + _) hspell.symm
  · show (if (runFiles cfg environ files).out.errors > 0 then 1 else 0) = _
    rw [hout, Out.add_errors, Out.printAll_errors, add_zero]
    exact if_congr (cast_pos hcount.errors) rfl rfl |>.trans (ite_not _ _ _)

/-- The Go program shows what its run means, over the arguments or the standard
input. -/
theorem goMain_shows {environ : Environ} {cfg : Knobs} {action : Action}
    (hread : readKnobs environ = .ok cfg) (hact : cfg.action = some action)
    (henviron : Posix environ) (stdin : File) (args : List File)
    (hcovers : dialect.Covers action cfg environ (arguments stdin args)) :
    ∃ r, main environ stdin args = .ok r ∧
      dialect.Shows action cfg environ (arguments stdin args) (Observed.ofReport r) := by
  obtain ⟨o, ho, hshows⟩ := program_conforms cfg action environ _ hact henviron hcovers
  obtain rfl := Option.some.inj ho
  exact ⟨_, by rw [main, hread]; rfl, hshows⟩

theorem goMain_shows_sample :
    ∃ r, main sampleEnviron sampleStdin sampleFiles = .ok r ∧
      dialect.Shows .apply sampleKnobs sampleEnviron sampleFiles (Observed.ofReport r) :=
  goMain_shows rfl rfl sampleEnviron_posix sampleStdin sampleFiles
    ⟨trivial, fun _ _ => trivial, nofun, by decide +kernel, by decide +kernel⟩

end Envfile.Go

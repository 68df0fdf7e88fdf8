/-
# `Envfile.Rust.Runs` — the Rust program conforms

Where its variables and its arguments are text, the Rust program does not panic, and
shows on every run what the run means (`program_conforms`).  Its counters are 64 bits
wide and unsigned.
-/
import Envfile.Lib.Assoc
import Envfile.Port.Files
import Envfile.Port.Refines
import Envfile.Rust.Program

namespace Envfile.Rust

open Assign Meaning

/-- What the Rust program has of its own. -/
def dialect : Dialect where
  classify := Port.outcome isBlank
  spell := spell
  limit := 2 ^ 64
  seeds := fun _ environ => Textual environ
  admits := fun _ file => Utf8.valid file.path = true
  rereads := true

/-! ## Files -/

theorem splitLines_eq (buf : Bytes) : splitLines buf = Lines.lines Byte.nl buf := by
  rw [splitLines, Lines.splitOn_eq, Lines.lines]
  simp only [List.getLast?_concat, List.dropLast_concat]
  cases Lines.rest Byte.nl buf with
  | nil => exact (List.append_nil _).symm
  | cons c r => rfl

theorem firstLineBom (cfg : Knobs) : FirstLineBom cfg (bomPass cfg) := ⟨rfl, fun _ _ => rfl⟩

theorem allCrlf : AllCrlf stripCrlf := by
  intro lines
  cases lines with
  | nil => rfl
  | cons l ls =>
      rw [stripCrlf, List.isEmpty_cons, Bool.not_false, Bool.true_and]
      split
      · refine List.map_congr_left ?_
        intro m hm
        have hcr : m.getLast? = some Byte.cr := beq_iff_eq.mp (List.all_eq_true.mp ‹_› m hm)
        rw [trimCr, if_pos hcr]
      · rfl

theorem gatherLoop : GatherLoop gather joinLines where
  ahead := ⟨fun _ _ => rfl, fun _ _ _ _ => rfl⟩
  nil := by
    intro rounds i
    cases rounds <;> rfl
  cons := fun _ _ _ _ => rfl

theorem numberLines_eq (n : Nat) (lines : List Bytes) :
    numberLines n lines = Lines.number n lines := by
  induction lines generalizing n with
  | nil => rfl
  | cons l lines ih => rw [numberLines, Lines.number, ih]

theorem readLines_eq (cfg : Knobs) (f : Bytes) : readLines cfg f = physical cfg f := by
  have hnul : f.contains Byte.nul = decide (Byte.nul ∈ f) := List.contains_eq_mem _ _
  rw [readLines, hnul, splitLines_eq]
  exact physical_eq (firstLineBom cfg) allCrlf f

theorem processArg_port (cfg : Knobs) (file : File) :
    processArg cfg file = Port.respelled id (port.processArg cfg file) := by
  rw [processArg, Port.processArg_respelled, readFile]
  split
  · rfl
  rw [processFile, readLines_eq]
  cases physical cfg file.contents with
  | error code => rfl
  | ok lines =>
      have hlines : (if cfg.contAccept then joinLines lines.length lines 0
          else numberLines 0 lines) = logical cfg lines :=
        logical_eq gatherLoop numberLines_eq cfg lines
      simp only [hlines]
      funext env
      refine Step.run_congr (fun p _ s => ?_) env
      rw [Port.respelled, Out.respell_id]
      rfl

/-! ## The environment -/

/-- The map has the bindings of the environment. -/
def Represents (env : EnvMap) (m : Env) : Prop := env.lookup = m

theorem isMap : port.IsMap Represents where
  get := fun h => h
  set := by
    rintro env m rfl k v
    exact Assoc.lookup_insert env k v

theorem parseEntry_eq {entry : Bytes} (h : entry.head? ≠ some Byte.equals) :
    parseEntry entry = splitEquals entry := by
  cases entry with
  | nil => rfl
  | cons c entry =>
      have hc : c ≠ Byte.equals := fun e => h (congrArg some e)
      have hne : (c == Byte.equals) = false := beq_eq_false_iff_ne.mpr hc
      rw [parseEntry, splitEquals, memchr, List.idxOf?_cons, hne]
      show (entry.idxOf? Byte.equals).map _ = ((entry.idxOf? Byte.equals).map _).map _
      rw [Option.map_map]
      rfl

theorem initialMap_start {cfg : Knobs} {action : Action} (hact : cfg.action = some action)
    {environ : Environ} (hposix : Posix environ) (htext : Textual environ) :
    ∃ env, initialMap cfg environ = some env ∧ Represents env (start action environ) := by
  have hparse : environ.filterMap parseEntry = environ.filterMap splitEquals :=
    List.filterMap_congr fun e he => parseEntry_eq (hposix.named e he)
  have hvars : vars environ = some (environ.filterMap splitEquals) := by
    rw [vars, hparse]
    refine if_pos (List.all_eq_true.mpr fun b hb => ?_)
    rw [Bool.and_eq_true]
    exact htext b hb
  rw [initialMap, start, hact]
  simp only [Option.some.injEq]
  split
  · rw [seedEnv, hvars]
    exact ⟨_, rfl, Assoc.lookup_foldl_unless (envfilePrefix.isPrefixOf ·) _ _⟩
  · exact ⟨_, rfl, rfl⟩

/-! ## Runs -/

theorem emitSorted_lists {env : EnvMap} {m : Env} (h : Represents env m) :
    Lists (fun k => if envfilePrefix.isPrefixOf k then none else m k) (emitSorted env) := by
  subst h
  have hlists := Assoc.sorted_lists (envfilePrefix.isPrefixOf ·) env (List.Perm.refl _) []
  have hkeys : emitSorted env = ((env.keys.filter fun k => !envfilePrefix.isPrefixOf k).mergeSort
      fun a b => decide (a ≤ b)).map fun k => (k, (env.lookup k).getD []) := by
    rw [emitSorted, ← List.filterMap_eq_map]
    refine List.filterMap_congr ?_
    intro key hkey
    have hmem := List.mem_of_mem_filter ((List.mergeSort_perm _ _).mem_iff.mp hkey)
    obtain ⟨value, hvalue⟩ := Option.isSome_iff_exists.mp
      (AList.lookup_isSome.mpr (AList.mem_keys.mpr hmem))
    rw [Function.comp_apply, hvalue]
    rfl
  rw [hkeys]
  exact hlists

theorem runFiles_eq {cfg : Knobs} {action : Action} (hact : cfg.action = some action)
    {environ : Environ} (hposix : Posix environ) (htext : Textual environ) {files : List File}
    (hfiles : ∀ file ∈ files, Utf8.valid file.path = true) :
    ∃ r printed, runFiles cfg environ files = some r ∧
      Lists (shown action (ofRun (Port.outcome isBlank) action cfg environ files).1) printed ∧
      r.out = Out.respell spell
        (toOut UInt64 (ofRun (Port.outcome isBlank) action cfg environ files).2) +
          Out.printAll printed ∧
      r.exit = if r.out.errors > 0 then 1 else 0 := by
  obtain ⟨env, henv, hstart⟩ := initialMap_start hact hposix htext
  obtain ⟨hstate, hout⟩ := Port.run_eq (ι := UInt64) isMap hact
    (fun file _ => Port.skipsBlank_of_isBlank rfl cfg file)
    (fun file (_ : file ∈ files) => processArg_port cfg file) hstart
  rw [Out.respell_id] at hout
  rw [runFiles, if_pos (List.all_eq_true.mpr hfiles), henv]
  refine ⟨_, _, rfl, lists_emitted (emitSorted_lists hstate) action, ?_, rfl⟩
  simp only [hact, Option.some.injEq, hout]
  congr 1
  split <;> rfl

theorem toString_cast {n : Nat} (h : n < 2 ^ 64) : toString (n : UInt64) = toString n := by
  show toString (n : UInt64).toNat = _
  rw [show (n : UInt64).toNat = n from UInt64.toNat_ofNat_of_lt h]

theorem cast_pos {n : Nat} (h : n < 2 ^ 64) : (n : UInt64) > 0 ↔ n ≠ 0 := by
  rw [gt_iff_lt, UInt64.lt_iff_toNat_lt,
    show (n : UInt64).toNat = n from UInt64.toNat_ofNat_of_lt h]
  exact Nat.pos_iff_ne_zero

/-- The Rust program, its variables read. -/
def program : Program := fun cfg environ files =>
  (runFiles cfg environ files).map Observed.ofReport

theorem program_conforms : Conforms dialect program := by
  rintro cfg action environ files hact hposix ⟨htext, hfiles, -, hcount⟩
  obtain ⟨r, printed, hr, hlists, hout, hexit⟩ := runFiles_eq hact hposix htext hfiles
  refine ⟨_, congrArg _ hr, shows_of_out hlists hout hcount (fun n hn => toString_cast hn) ?_⟩
  rw [hexit, hout, Out.add_errors, Out.printAll_errors, add_zero]
  exact if_congr (cast_pos hcount.errors) rfl rfl |>.trans (ite_not _ _ _)

/-- The Rust program does not panic, and shows what its run means. -/
theorem rustMain_shows {environ : Environ} {cfg : Knobs} {action : Action}
    (hread : readKnobs environ = .ok cfg) (hact : cfg.action = some action)
    (henviron : Posix environ) (stdin : File) (args : List File)
    (hcovers : dialect.Covers action cfg environ (arguments stdin args)) :
    ∃ r, main environ stdin args = .ok (some r) ∧
      dialect.Shows action cfg environ (arguments stdin args) (Observed.ofReport r) := by
  obtain ⟨o, ho, hshows⟩ := program_conforms cfg action environ _ hact henviron hcovers
  obtain ⟨r, hr, rfl⟩ := Option.map_eq_some_iff.mp ho
  exact ⟨r, by rw [main, hread]; exact congrArg Except.ok hr, hshows⟩

theorem rustMain_shows_sample :
    ∃ r, main sampleEnviron sampleStdin sampleFiles = .ok (some r) ∧
      dialect.Shows .apply sampleKnobs sampleEnviron sampleFiles (Observed.ofReport r) :=
  rustMain_shows rfl rfl sampleEnviron_posix sampleStdin sampleFiles
    ⟨sampleEnviron_textual, sampleFiles_textual, nofun, by decide +kernel, by decide +kernel⟩

end Envfile.Rust

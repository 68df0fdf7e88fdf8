/-
# `Envfile.Python.Runs` — the Python program conforms

The passes of `process_file` leave the lines of `Envfile.Runs`, the `dict` is a
map, and `sorted` lists it; so where a locale is named and the paths are text, the
program shows what the run means (`program_conforms`).  Its integers have no limit.
-/
import Envfile.Lib.Assoc
import Envfile.Port.Files
import Envfile.Port.Refines
import Envfile.Python.Program

namespace Envfile.Python

open Assign Meaning

/-- What the Python program has of its own; `limit` stands for any bound. -/
def dialect (limit : Nat) : Dialect where
  classify := Port.outcome isBlank
  spell := spell
  limit := limit
  seeds := fun _ environ => NamesLocale environ
  admits := fun _ file => Utf8.valid file.path = true
  rereads := true

/-! ## Files -/

theorem splitLines_eq (buf : Bytes) : splitLines buf = Lines.lines Byte.nl buf := by
  rw [splitLines, Lines.splitOn_eq, Lines.lines]
  simp only [List.getLast?_concat, List.dropLast_concat]
  cases Lines.rest Byte.nl buf with
  | nil => exact (List.append_nil _).symm
  | cons c r => rfl

theorem firstLineBom (cfg : Knobs) : FirstLineBom cfg (bomPass cfg) := ⟨rfl, fun _ _ => rfl⟩

theorem allCrlf : AllCrlf stripCrlf := by
  intro lines
  have hsuffix : ∀ line : Bytes,
      [Byte.cr].isSuffixOf line = (line.getLast? == some Byte.cr) := by
    intro line
    rw [Bool.eq_iff_iff, List.isSuffixOf_iff_suffix, beq_iff_eq, List.getLast?_eq_some_iff]
    exact ⟨fun ⟨t, ht⟩ => ⟨t, ht.symm⟩, fun ⟨t, ht⟩ => ⟨t, ht.symm⟩⟩
  cases lines with
  | nil => rfl
  | cons l ls =>
      rw [stripCrlf]
      simp only [hsuffix, List.isEmpty_cons, Bool.false_eq_true, if_false]
      split
      · refine List.map_congr_left ?_
        intro m hm
        have hcr : m.getLast? = some Byte.cr := beq_iff_eq.mp (List.all_eq_true.mp ‹_› m hm)
        rw [trimCr, if_pos hcr]
      · rfl

theorem gatherLoop : GatherLoop gather joinLines where
  ahead := ⟨fun _ _ => rfl, fun _ _ _ _ => rfl⟩
  nil := by
    intro rounds i
    cases rounds <;> rfl
  cons := fun _ _ _ _ => rfl

theorem enumerate_eq (n : Nat) (lines : List Bytes) : enumerate n lines = Lines.number n lines := by
  induction lines generalizing n with
  | nil => rfl
  | cons l lines ih => rw [enumerate, Lines.number, ih]

theorem readLines_eq (cfg : Knobs) (f : Bytes) : readLines cfg f = physical cfg f := by
  have hnul : f.contains Byte.nul = decide (Byte.nul ∈ f) := List.contains_eq_mem _ _
  rw [readLines, hnul, splitLines_eq]
  exact physical_eq (firstLineBom cfg) allCrlf f

theorem processArg_port (cfg : Knobs) {file : File} (h : Utf8.valid file.path = true) :
    processArg cfg file = Port.respelled spell (port.processArg cfg file) := by
  have hpath : pathText file.path = file.path := Utf8.escaped_of_valid h
  rw [processArg, Port.processArg_respelled, readFile]
  split
  · rw [fdiag, hpath]
  rw [processFile, readLines_eq]
  cases physical cfg file.contents with
  | error code =>
      show Step.emit (fdiag file.path code) = _
      rw [fdiag, hpath]
      rfl
  | ok lines =>
      have hlines : (if cfg.contAccept then joinLines lines.length lines 0
          else enumerate 0 lines) = logical cfg lines :=
        logical_eq gatherLoop enumerate_eq cfg lines
      have hbody : processLine cfg file.path = fun lineno line =>
          Port.respelled spell (port.processLine cfg file.path lineno line) := by
        funext lineno line env
        rw [processLine, hpath]
        rfl
      simp only [hlines, hbody]
      rfl

/-! ## The environment -/

/-- The `dict` has the bindings of the environment. -/
def Represents (env : EnvMap) (m : Env) : Prop := env.lookup = m

theorem isMap : port.IsMap Represents where
  get := fun h => h
  set := by
    rintro env m rfl k v
    exact Assoc.lookup_insert env k v

theorem osEnvironb_lookup {environ : Environ} (h : (seedNames environ).Nodup) :
    (osEnvironb environ).lookup = assign empty (environ.filterMap splitEquals) := by
  have hentries : osEnvironb environ = (environ.filterMap splitEquals).foldl
      (fun env b => if b.1 ∈ env then env else env.insert b.1 b.2) ∅ := by
    rw [List.foldl_filterMap, osEnvironb]
    congr 1
    funext env entry
    rcases line_shape entry with ⟨hno, hsplit⟩ | ⟨k, v, rfl, hk, hsplit⟩
    · rw [hsplit, show entry.idxOf? Byte.equals = none from memchr_eq_none.mpr hno]
    · rw [hsplit, show (k ++ Byte.equals :: v).idxOf? Byte.equals = some k.length from
        memchr_append hk v]
      simp only [take_before, drop_after]
  rw [hentries, Assoc.lookup_foldl_first h fun _ _ => AList.notMem_empty _]
  rfl

theorem envSeed_lookup {environ : Environ} (h : (seedNames environ).Nodup) :
    (envSeed environ).lookup = seed environ := by
  have hentries : envSeed environ = (Assoc.bindings (osEnvironb environ)).foldl
      (fun env b => if envfilePrefix.isPrefixOf b.1 then env else env.insert b.1 b.2) ∅ := by
    rw [Assoc.bindings, List.foldl_map]
    rfl
  rw [hentries, Assoc.lookup_foldl_unless, seed, assign_filter_not, ← osEnvironb_lookup h,
    ← Assoc.assign_bindings (osEnvironb environ)]
  exact assign_filter_not _ _

theorem initialMap_start {cfg : Knobs} {action : Action} (hact : cfg.action = some action)
    {environ : Environ} (h : (seedNames environ).Nodup) :
    Represents (initialMap cfg environ) (start action environ) := by
  rw [initialMap, start, hact]
  simp only [Option.some.injEq]
  split
  · exact envSeed_lookup h
  · rfl

/-! ## Runs -/

theorem runFiles_eq {cfg : Knobs} {action : Action} (hact : cfg.action = some action)
    {environ : Environ} (henviron : (seedNames environ).Nodup) {files : List File}
    (hfiles : ∀ file ∈ files, Utf8.valid file.path = true) :
    ∃ printed,
      Lists (shown action (ofRun (Port.outcome isBlank) action cfg environ files).1) printed ∧
      (runFiles cfg environ files).out = Out.respell spell
        (toOut Nat (ofRun (Port.outcome isBlank) action cfg environ files).2) +
          Out.printAll printed := by
  obtain ⟨hstate, hout⟩ := Port.run_eq isMap hact
    (fun file _ => Port.skipsBlank_of_isBlank rfl cfg file)
    (fun file hfile => processArg_port cfg (hfiles file hfile)) (initialMap_start hact henviron)
  have hsorted : Lists (fun k => if envfilePrefix.isPrefixOf k then none else
      (ofRun (Port.outcome isBlank) action cfg environ files).1 k)
      (emitSorted (Step.run (processArg cfg) files (initialMap cfg environ)).1) := by
    have hlookup : (Step.run (processArg cfg) files (initialMap cfg environ)).1.lookup =
      (ofRun (Port.outcome isBlank) action cfg environ files).1 := hstate
    rw [← hlookup]
    exact Assoc.sorted_lists (envfilePrefix.isPrefixOf ·) _ (List.Perm.refl _) []
  refine ⟨_, lists_emitted hsorted action, ?_⟩
  rw [runFiles]
  simp only [hact, Option.some.injEq]
  rw [hout]
  congr 1
  split <;> rfl

/-- The Python program, its variables read. -/
def program (python : Interpreter) : Program := fun cfg environ files =>
  some (Observed.ofReport (runFiles cfg (python.environ environ) files))

theorem program_conforms (python : Interpreter) (limit : Nat) :
    Conforms (dialect limit) (program python) := by
  rintro cfg action environ files hact henviron ⟨hlocale, hfiles, -, hcount⟩
  obtain ⟨printed, hlists, hout⟩ := runFiles_eq hact henviron.unique hfiles
  have hstarted := python.environ_named environ hlocale
  refine ⟨_, rfl, ?_⟩
  rw [hstarted]
  refine shows_of_out hlists hout hcount (fun _ _ => rfl) ?_
  show (if (runFiles cfg environ files).out.errors ≠ 0 then 1 else 0) = _
  rw [hout, Out.add_errors, Out.printAll_errors, add_zero]
  exact ite_not _ _ _

theorem sampleEnviron_namesLocale : NamesLocale sampleEnviron :=
  ⟨⟨ascii "C", by decide, Or.inl rfl⟩, by decide⟩

theorem sampleInterpreter_named (e : Environ) (h : NamesLocale e) :
    (if (getenv e (ascii "LC_ALL")).isSome then e else ascii "LC_CTYPE=C.UTF-8" :: e) = e := by
  obtain ⟨⟨v, hv, -⟩, -⟩ := h
  rw [hv]
  rfl

/-- An interpreter that sets `LC_CTYPE` where there is no `LC_ALL`. -/
def sampleInterpreter : Interpreter where
  environ := fun e =>
    if (getenv e (ascii "LC_ALL")).isSome then e else ascii "LC_CTYPE=C.UTF-8" :: e
  environ_named := sampleInterpreter_named

end Envfile.Python

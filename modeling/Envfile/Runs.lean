/-
# `Envfile.Runs` — what a run over files means

`Envfile.Meaning` says what a line means; this is the rest of the abstract
program.  `readFile` is what the passes make of a file, `ofRun` what a run over
the file arguments leaves and writes, and `report` what it has reported at its
end.

The implementations differ in how they classify a line, in how they spell a
name on stderr, in how far their counters go and in the runs they are meant
for: a `Dialect`.  A program that conforms to a dialect shows on such a run what
the run means (`Conforms`), so two programs show the same where their dialects
do not differ on the lines of the run (`Dialect.Shows.congr`).
-/
import Envfile.Continuation
import Envfile.Lib.Utf8
import Envfile.Meaning

namespace Envfile.Meaning

open Assign

/-! ## Files -/

section Passes

variable (cfg : Knobs)

/-- The lines without their CRs, if every line has one and the CRs are to go. -/
def stripCrs (ls : List Bytes) : List Bytes :=
  if cfg.crlfStrip && ls.all fun l => l.getLast? == some Byte.cr then ls.map trimCr else ls

/-- The lines behind a BOM that is stripped: a BOM alone leaves one empty line. -/
def behindBom (g : Bytes) : List Bytes := if g = [] then [[]] else Lines.lines Byte.nl g

/-- The physical lines of a file as the passes leave them, or the code that the
file is rejected with. -/
def physical (f : Bytes) : Except Code (List Bytes) :=
  if cfg.nulReject = true ∧ Byte.nul ∈ f then .error .fileNul
  else if bomBytes.isPrefixOf f then
    match cfg.bom with
    | .reject => .error .fileBom
    | .strip => .ok (stripCrs cfg (behindBom (f.drop 3)))
    | .literal => .ok (stripCrs cfg (Lines.lines Byte.nl f))
  else .ok (stripCrs cfg (Lines.lines Byte.nl f))

/-- The logical lines, each with the number of its last physical line. -/
def logical (ls : List Bytes) : List (Bytes × Nat) :=
  if cfg.contAccept then joinFrom [] 0 ls else Lines.number 0 ls

/-- What a file argument is read as. -/
def readFile (file : File) : Except Code (List (Bytes × Nat)) :=
  if !file.opens || file.failed then .error .fileUnreadable
  else (physical cfg file.contents).map (logical cfg)

/-- The lines that a file argument hands to the classifier. -/
def handed (file : File) : List (Bytes × Nat) :=
  match readFile cfg file with
  | .error _ => []
  | .ok lines => lines

end Passes

/-! ## Runs -/

/-- The names that an environment binds, one for each entry. -/
def seedNames (environ : Environ) : List Bytes := (environ.filterMap splitEquals).map Prod.fst

/-- The environment of a process: no NUL, no entry without a name, no name
twice. -/
structure Posix (environ : Environ) : Prop where
  nulFree : ∀ e ∈ environ, Byte.nul ∉ e
  named : ∀ e ∈ environ, e.head? ≠ some Byte.equals
  unique : (seedNames environ).Nodup

/-- The variables are text, for the programs that take them as text. -/
def Textual (environ : Environ) : Prop :=
  ∀ b ∈ environ.filterMap splitEquals, Utf8.valid b.1 = true ∧ Utf8.valid b.2 = true

instance (environ : Environ) : Decidable (Textual environ) :=
  inferInstanceAs (Decidable (∀ b ∈ environ.filterMap splitEquals, _ ∧ _))

/-- The bindings that a process starts with, but for the `ENVFILE_` ones. -/
def seed (environ : Environ) : Env :=
  assign empty ((environ.filterMap splitEquals).filter fun b => !envfilePrefix.isPrefixOf b.1)

/-- The environment that a run starts with. -/
def start (action : Action) (environ : Environ) : Env :=
  if action = .delta ∨ action = .apply then seed environ else empty

section Run

variable (classify : Bool → Bytes → Outcome) (action : Action) (cfg : Knobs)

/-- What a file argument means. -/
def ofFile (file : File) : Step Env (Out Nat) :=
  match readFile cfg file with
  | .error code => Step.emit (Out.diag ⟨code, none, file.path, none⟩)
  | .ok lines =>
      Step.run (fun p => line cfg.native action (classify cfg.native) file.path p.2 p.1) lines

/-- What a run means: the environment it leaves, and what it writes up to there. -/
def ofRun (environ : Environ) (files : List File) : Env × Out Nat :=
  Step.run (ofFile classify action cfg) files (start action environ)

end Run

/-- The bindings that are listed at the end of a run. -/
def shown (action : Action) (env : Env) : Env := fun k =>
  if action = .apply then (if envfilePrefix.isPrefixOf k then none else env k) else none

theorem lists_nothing {action : Action} (h : action ≠ .apply) (env : Env) :
    Lists (shown action env) [] := by
  refine ⟨List.Pairwise.nil, ?_⟩
  intro k v
  rw [shown, if_neg h]
  exact iff_of_false List.not_mem_nil (Option.some_ne_none v).symm

theorem lists_emitted {env : Env} {printed : List Binding}
    (h : Lists (fun k => if envfilePrefix.isPrefixOf k then none else env k) printed)
    (action : Action) : Lists (shown action env) (if action = .apply then printed else []) := by
  by_cases hact : action = .apply
  · subst hact
    exact h
  · rw [if_neg hact]
    exact lists_nothing hact env

/-! ## What is seen of a run -/

/-- What can be seen of a run from outside. -/
@[ext] structure Observed where
  stdout : Bytes
  stderr : Bytes
  exit : Nat
deriving DecidableEq

/-- What a report shows. -/
def Observed.ofReport {ι : Type} [ToString ι] (r : Report ι) : Observed :=
  ⟨r.out.bytes, r.stderr, r.exit⟩

/-- What an implementation has of its own. -/
structure Dialect where
  /-- What a line of the format means. -/
  classify : Bool → Bytes → Outcome
  /-- How a name is spelled in a diagnostic. -/
  spell : Bytes → Bytes
  /-- The counters count up to here. -/
  limit : Nat
  /-- The environments it is meant for. -/
  seeds : Knobs → Environ → Prop
  /-- The files it is meant for. -/
  admits : Knobs → File → Prop
  /-- Whether it can be given the standard input more than once. -/
  rereads : Bool

namespace Dialect

variable (d : Dialect) (action : Action) (cfg : Knobs) (environ : Environ) (files : List File)

/-- The report of a run that prints the listing `printed` at its end. -/
def report (printed : List Binding) : Report Nat :=
  let out := (ofRun d.classify action cfg environ files).2
  ⟨Out.respell d.spell out + Out.printAll printed,
    if out.errors = 0 then 0 else 1⟩

/-- `o` is what the run shows. -/
def Shows (o : Observed) : Prop :=
  ∃ printed, Lists (shown action (ofRun d.classify action cfg environ files).1) printed ∧
    o = Observed.ofReport (d.report action cfg environ files printed)

/-- The counters of a run stay below the limit. -/
structure Counts : Prop where
  checked : (ofRun d.classify action cfg environ files).2.checked < d.limit
  errors : (ofRun d.classify action cfg environ files).2.errors < d.limit

end Dialect

/-- A run that a dialect is meant for. -/
structure Dialect.Covers (d : Dialect) (action : Action) (cfg : Knobs) (environ : Environ)
    (files : List File) : Prop where
  seeds : d.seeds cfg environ
  admits : ∀ file ∈ files, d.admits cfg file
  once : d.rereads = false → files.countP (·.path == [Byte.dash]) ≤ 1
  counts : d.Counts action cfg environ files

/-- A program, its variables read: what it shows on a run, unless it stops with
a fault of its own. -/
abbrev Program := Knobs → Environ → List File → Option Observed

/-- On every run that it is meant for, the program shows what the run means. -/
def Conforms (d : Dialect) (program : Program) : Prop :=
  ∀ (cfg : Knobs) (action : Action) (environ : Environ) (files : List File),
    cfg.action = some action → Posix environ → d.Covers action cfg environ files →
    ∃ o, program cfg environ files = some o ∧ d.Shows action cfg environ files o

/-- The files of a run: without arguments, the standard input. -/
def arguments (stdin : File) (args : List File) : List File :=
  if args.isEmpty then [{ stdin with path := [Byte.dash] }] else args

section Agree

variable {d e : Dialect} {action : Action} {cfg : Knobs} {environ : Environ} {files : List File}

theorem Dialect.Shows.unique {o o' : Observed} (h : d.Shows action cfg environ files o)
    (h' : d.Shows action cfg environ files o') : o = o' := by
  obtain ⟨printed, hlists, rfl⟩ := h
  obtain ⟨printed', hlists', rfl⟩ := h'
  rw [hlists.unique hlists']

/-- Where two dialects say the same of every line that is handed on, a run
means the same in both. -/
theorem ofRun_congr {classify classify' : Bool → Bytes → Outcome}
    (h : ∀ file ∈ files, ∀ p ∈ handed cfg file,
      classify cfg.native p.1 = classify' cfg.native p.1) :
    ofRun classify action cfg environ files = ofRun classify' action cfg environ files := by
  refine Step.run_congr ?_ _
  intro file hfile env
  have hlines := h file hfile
  rw [handed] at hlines
  rw [ofFile, ofFile]
  cases hread : readFile cfg file with
  | error code => rfl
  | ok lines =>
      rw [hread] at hlines
      refine Step.run_congr ?_ env
      intro p hp env
      simp only [line, hlines p hp]

/-- The names that are reported as unbound are spelled alike. -/
def SpelledAlike (d e : Dialect) (out : Out Nat) : Prop :=
  ∀ diag ∈ out.diags, ∀ name ∈ diag.name, d.spell name = e.spell name

/-- What a run shows in one dialect, it shows in another one that does not
differ on it. -/
theorem Dialect.Shows.congr {o : Observed} (h : d.Shows action cfg environ files o)
    (hclass : ∀ file ∈ files, ∀ p ∈ handed cfg file,
      d.classify cfg.native p.1 = e.classify cfg.native p.1)
    (hspell : SpelledAlike d e (ofRun d.classify action cfg environ files).2) :
    e.Shows action cfg environ files o := by
  obtain ⟨printed, hlists, rfl⟩ := h
  have hrun : ofRun d.classify action cfg environ files =
      ofRun e.classify action cfg environ files :=
    ofRun_congr hclass
  refine ⟨printed, hrun ▸ hlists, ?_⟩
  rw [Dialect.report, Dialect.report, ← hrun, Out.respell_congr _ hspell]

end Agree

/-! ## Reports -/

section Showing

variable {ι : Type} [AddMonoidWithOne ι] [ToString ι] {d : Dialect} {action : Action}
  {cfg : Knobs} {environ : Environ} {files : List File}

/-- A report that has the output of a run, and counters that are printed as
numbers, shows the run. -/
theorem shows_of_out {r : Report ι} {printed : List Binding}
    (hlists : Lists (shown action (ofRun d.classify action cfg environ files).1) printed)
    (hout : r.out = Out.respell d.spell (toOut ι (ofRun d.classify action cfg environ files).2) +
      Out.printAll printed)
    (hcount : d.Counts action cfg environ files)
    (htext : ∀ n < d.limit, toString (n : ι) = toString n)
    (hexit : r.exit = if (ofRun d.classify action cfg environ files).2.errors = 0 then 0 else 1) :
    d.Shows action cfg environ files (Observed.ofReport r) := by
  obtain ⟨hchecked, herrors⟩ := hcount
  obtain ⟨total, exit⟩ := r
  refine ⟨printed, hlists, ?_⟩
  rw [Dialect.report]
  generalize (ofRun d.classify action cfg environ files).2 = out at *
  obtain rfl : total = _ := hout
  obtain rfl : exit = _ := hexit
  have hsummary : ∀ exit exit' : Nat,
      Report.summary (⟨Out.respell d.spell (toOut ι out) + Out.printAll printed, exit⟩ : Report ι) =
        Report.summary (⟨Out.respell d.spell out + Out.printAll printed, exit'⟩ : Report Nat) := by
    intro exit exit'
    rw [Report.summary, Report.summary, Out.add_checked, Out.add_errors, Out.add_checked,
      Out.add_errors, Out.printAll_checked, Out.printAll_errors, add_zero, add_zero]
    show ascii (toString (out.checked : ι) ++ _ ++ toString (out.errors : ι) ++ _) = _
    rw [htext _ hchecked, htext _ herrors]
    rfl
  ext1
  · rfl
  · show (_ : Bytes) ++ Report.summary _ ++ _ = _ ++ Report.summary _ ++ _
    rw [hsummary]
    rfl
  · rfl

end Showing

/-! ## A run

`apply` over one file, which has a binding, a reference that is unbound and a
line without a key. -/

def sampleEnviron : Environ := [ascii "ENVFILE_ACTION=apply", ascii "LC_ALL=C", ascii "A=1"]

theorem not_native : false = true → BomMode.strip = .literal := by rintro ⟨⟩

def sampleKnobs : Knobs where
  native := false
  action := some .apply
  bom := .strip
  crlfStrip := false
  nulReject := true
  contAccept := false
  native_bom := not_native

def sampleFiles : List File := [File.readable (ascii "f") (ascii "B=$A$C\n=x\n")]

/-- Nothing on the standard input. -/
def sampleStdin : File := File.readable [] []

theorem sampleEnviron_posix : Posix sampleEnviron :=
  ⟨by decide +kernel, by decide +kernel, by decide +kernel⟩

theorem sampleEnviron_textual : Textual sampleEnviron := by decide +kernel

theorem sampleFiles_textual : ∀ file ∈ sampleFiles, Utf8.valid file.path = true := by decide

end Envfile.Meaning

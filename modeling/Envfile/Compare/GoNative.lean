/-
# `Envfile.Compare.GoNative` — the C and the Go program on native files

Both programs refine the meaning of the same lines, so they write the same:
the C program by way of its reading loop, its table of pairs and its 32-bit
counters, the Go program by way of slices, a map and 64-bit counters.  What
they print of the environment at the end is its one listing in the order of
the keys.

The counters are equal as long as they count less than `2 ^ 31`.
-/
import Envfile.C.Refines
import Envfile.Compare.Files
import Envfile.Go.Refines

namespace Envfile

open Assign Meaning

/-! ## Files -/

/-- A file that can be read, and whose lines are not too long for C. -/
structure File.Plain (file : File) : Prop where
  opens : file.opens = true
  reads : file.failed = false
  nulFree : Byte.nul ∉ file.contents
  linesFit : C.LinesFit file.contents

section Files

variable {cfg : C.Config} {knobs : Knobs} (hsame : SameSettings cfg knobs)
  (hnative : cfg.native = true) {file : File} (hfile : file.Plain)

/-- What a native file means. -/
def fileMeaning (cfg : C.Config) (file : File) : Step Env (Out Nat) :=
  Step.run (fun p => Meaning.line true cfg.action referenceNative file.path p.2 p.1)
    (Lines.number 0 (C.physicalLines cfg file.contents))

include hnative in
theorem C.handedLines_native (data : Bytes) :
    C.handedLines cfg data = Lines.number 0 (C.physicalLines cfg data) :=
  C.handedLines_off (cfg.native_cont hnative) data

include hnative hfile in
theorem C.processArg_native :
    Refines C.Represents (C.processArg .c cfg file) (fileMeaning cfg file) := by
  have hopen : C.fopen file = some (C.Stream.ofBytes file.contents) := by
    rw [C.fopen, hfile.opens, hfile.reads]
    rfl
  have hpass : C.prePasses cfg (C.Stream.ofBytes file.contents) = .ok file.contents :=
    C.prePasses_literal (cfg.native_bom hnative) fun h => hfile.nulFree h.2
  have hjoined := C.joinedFit_off (cfg.native_cont hnative)
  have hfile' := C.processFile_eq .c cfg file.path hfile.linesFit fun data _ => hjoined data
  simp only [hpass] at hfile'
  rw [C.processArg, hopen, fileMeaning, ← C.handedLines_native hnative]
  show Refines C.Represents (C.processFile .c cfg file.path _) _
  rw [hfile']
  refine Refines.run ?_
  intro p hp
  have hnul : Byte.nul ∉ p.1 := fun h => hfile.nulFree
    ((C.of_mem_handedLines cfg hfile.linesFit (hjoined _) hp).2 _ h).2
  have hclass : C.outcome cfg.native p.1 = referenceNative p.1 := by
    rw [hnative]
    exact C.nativeOutcome_eq hnul
  have h := C.body_refines hnul hclass file.path p.2
  rwa [hnative] at h

include hsame hnative hfile in
theorem Go.processArg_native :
    Refines Go.Represents (Go.processArg knobs file) (fileMeaning cfg file) := by
  have hstrip : ∀ ls, Go.stripCrlf ls = Awk.stripCrlf ls := fun ls =>
    (Go.stripCrlf_eq ls).trans (Awk.stripCrlf_eq ls).symm
  have hbom : knobs.bom = .literal := by rw [hsame.bom, cfg.native_bom hnative]
  have hcont : knobs.contAccept = false := by rw [hsame.shellCont, cfg.native_cont hnative]
  rw [Go.processArg, hfile.opens, hfile.reads]
  show Refines Go.Represents (Go.processFile knobs file.path file.contents) _
  rw [Go.processFile_plain hbom hcont hfile.nulFree, hstrip, stripCrlf_lines hsame, fileMeaning]
  refine Refines.run ?_
  intro p _
  exact Go.processLine_native (hsame.native.trans hnative) hsame.action file.path p.2 p.1

end Files

/-! ## Runs -/

/-- The environment of a process: no NUL, no empty key, no key twice. -/
structure SeedEnviron (environ : Environ) : Prop where
  nulFree : ∀ e ∈ environ, Byte.nul ∉ e
  keyed : ∀ e ∈ environ, e.head? ≠ some Byte.equals
  unique : (Go.environKeys environ).Nodup

/-- The environment that a run starts with. -/
def startMeaning (cfg : C.Config) (environ : Environ) : Env :=
  if cfg.action = .delta ∨ cfg.action = .apply then assign empty (C.seeded environ) else empty

/-- What a run over native files means. -/
def runMeaning (cfg : C.Config) (environ : Environ) (files : List File) : Env × Out Nat :=
  Step.run (fileMeaning cfg) files (startMeaning cfg environ)

/-- What a run prints at its end. -/
def Emits (action : Action) (m : Env) (printed : List Binding) : Prop :=
  if action = .apply then Lists (fun k => if envfilePrefix.isPrefixOf k then none else m k) printed
  else printed = []

theorem Emits.unique {action : Action} {m : Env} {printed printed' : List Binding}
    (h : Emits action m printed) (h' : Emits action m printed') : printed = printed' := by
  rw [Emits] at h h'
  split at h
  · rw [if_pos ‹_›] at h'
    exact h.unique h'
  · rw [if_neg ‹_›] at h'
    rw [h, h']

section Runs

variable {cfg : C.Config} {knobs : Knobs} {environ : Environ} {files : List File}

theorem C.initialTable_represents (cfg : C.Config) (henviron : SeedEnviron environ) :
    C.Represents (C.initialTable cfg environ) (startMeaning cfg environ) := by
  rw [C.initialTable, startMeaning]
  split
  · exact C.envTableInitFromProcess_spec henviron.nulFree
  · exact ⟨C.keyed_zero, C.value_zero⟩

theorem Go.initialMap_represents (hsame : SameSettings cfg knobs)
    (henviron : SeedEnviron environ) :
    Go.Represents (Go.initialMap knobs environ) (startMeaning cfg environ) := by
  rw [Go.initialMap, startMeaning, hsame.action]
  simp only [Option.some.injEq]
  split
  · rw [C.seeded_eq henviron.keyed]
    exact Go.seedEnv_lookup henviron.unique
  · rfl

theorem C.runFiles_native (hnative : cfg.native = true) (henviron : SeedEnviron environ)
    (hfiles : ∀ file ∈ files, file.Plain) :
    ∃ printed, Emits cfg.action (runMeaning cfg environ files).1 printed ∧
      (C.runFiles .c cfg environ files).out =
        toOut Int32 (runMeaning cfg environ files).2 +
          { (0 : Out Int32) with stdout := printed } := by
  have hrefines := Refines.run fun file hf => C.processArg_native hnative (hfiles file hf)
  obtain ⟨⟨hkeyed, hvalue⟩, hout⟩ := hrefines _ _ (C.initialTable_represents cfg henviron)
  rw [C.runFiles_out, hout, C.emitted]
  by_cases hact : cfg.action = .apply
  · refine ⟨_, ?_, by rw [if_pos hact]; rfl⟩
    rw [Emits, if_pos hact]
    have hlists := C.envTableEmitSorted_lists hkeyed
    rwa [hvalue] at hlists
  · refine ⟨[], ?_, by rw [if_neg hact]; rfl⟩
    rw [Emits, if_neg hact]

theorem Go.runFiles_native (hsame : SameSettings cfg knobs) (hnative : cfg.native = true)
    (henviron : SeedEnviron environ) (hfiles : ∀ file ∈ files, file.Plain) :
    ∃ printed, Emits cfg.action (runMeaning cfg environ files).1 printed ∧
      (Go.runFiles knobs environ files).out =
        toOut Int64 (runMeaning cfg environ files).2 +
          { (0 : Out Int64) with stdout := printed } := by
  have hrefines := Refines.run fun file hf => Go.processArg_native hsame hnative (hfiles file hf)
  obtain ⟨hvalue, hout⟩ := hrefines _ _ (Go.initialMap_represents hsame henviron)
  show ∃ printed, _ ∧ (Step.run (Go.processArg knobs) files (Go.initialMap knobs environ)).2 + _ = _
  rw [hout, hsame.action]
  simp only [Option.some.injEq]
  by_cases hact : cfg.action = .apply
  · refine ⟨_, ?_, by rw [if_pos hact]; rfl⟩
    rw [Emits, if_pos hact]
    exact Go.emitSorted_lists hvalue
  · refine ⟨[], ?_, by rw [if_neg hact]; rfl⟩
    rw [Emits, if_neg hact]

theorem counted_run (cfg : C.Config) (environ : Environ) (files : List File) :
    Counted (runMeaning cfg environ files).2 := by
  refine Step.run_out (fun _ => True) Counted counted_zero (fun _ _ => Counted.add) ?_ trivial
  intro file _ env _
  refine ⟨trivial, ?_⟩
  refine Step.run_out (fun _ => True) Counted counted_zero (fun _ _ => Counted.add) ?_ trivial
  intro p _ env _
  have hskipped : referenceNative p.1 = .skipped ↔ isSkipped p.1 = true :=
    @reference_eq_skipped true p.1
  exact ⟨trivial, counted_line true cfg.action file.path p.2 hskipped env⟩

end Runs

/-! ## The two programs -/

theorem toInt_cast {n : Nat} (h : n < 2 ^ 31) :
    (n : Int32).toInt = n ∧ (n : Int64).toInt = n :=
  ⟨Int32.toInt_ofNat_of_lt h, Int64.toInt_ofNat_of_lt (lt_of_lt_of_le h (by decide))⟩

theorem total_fields {ι : Type} [AddMonoidWithOne ι] {total : Out ι} {o : Out Nat}
    {printed : List Binding} (h : total = toOut ι o + { (0 : Out ι) with stdout := printed }) :
    total.stdout = o.stdout ++ printed ∧ total.diags = o.diags ∧
      total.checked = (o.checked : ι) ∧ total.errors = (o.errors : ι) ∧
      total.handed = o.handed := by
  subst h
  exact ⟨rfl, List.append_nil _, add_zero _, add_zero _, List.append_nil _⟩

/-- On native files that can be read, the C program and the Go program write
the same and exit the same. -/
theorem go_eq_c {cfg : C.Config} {knobs : Knobs} (hsame : SameSettings cfg knobs)
    (hnative : cfg.native = true) {environ : Environ} (henviron : SeedEnviron environ)
    {files : List File} (hfiles : ∀ file ∈ files, file.Plain)
    (hrecords : ((C.runFiles .c cfg environ files).out.handed.filter
      fun p => !isSkipped p.1).length < 2 ^ 31)
    (hdiags : (C.runFiles .c cfg environ files).out.diags.length < 2 ^ 31) :
    let c := C.runFiles .c cfg environ files
    let go := Go.runFiles knobs environ files
    go.out.bytes = c.out.bytes ∧ go.out.diags = c.out.diags ∧
      go.out.checked.toInt = c.out.checked.toInt ∧ go.out.errors.toInt = c.out.errors.toInt ∧
      go.stderr = c.stderr ∧ go.exit = c.exit := by
  intro c go
  obtain ⟨printed, hprinted, hc⟩ := C.runFiles_native hnative henviron hfiles
  obtain ⟨printed', hprinted', hgo⟩ := Go.runFiles_native hsame hnative henviron hfiles
  obtain rfl := hprinted.unique hprinted'
  obtain ⟨hcounted, hcounted'⟩ := counted_run cfg environ files
  obtain ⟨hcstdout, hcdiags, hcchecked, hcerrors, hchanded⟩ := total_fields hc
  obtain ⟨hgostdout, hgodiags, hgochecked, hgoerrors, -⟩ := total_fields hgo
  -- the counters have not overflowed
  have hrecords : (runMeaning cfg environ files).2.checked < 2 ^ 31 := by
    rw [hcounted, ← hchanded]
    exact hrecords
  have hcount : (runMeaning cfg environ files).2.errors < 2 ^ 31 := by
    rw [hcounted', ← hcdiags]
    exact hdiags
  have hchecked : go.out.checked.toInt = c.out.checked.toInt := by
    rw [hgochecked, hcchecked, (toInt_cast hrecords).1, (toInt_cast hrecords).2]
  have herrors : go.out.errors.toInt = c.out.errors.toInt := by
    rw [hgoerrors, hcerrors, (toInt_cast hcount).1, (toInt_cast hcount).2]
  refine ⟨?_, hgodiags.trans hcdiags.symm, hchecked, herrors, ?_, ?_⟩
  · rw [Out.bytes, Out.bytes, hgostdout, hcstdout]
  · have hsummary : go.summary = c.summary := by
      show ascii (toString go.out.checked.toInt ++ _ ++ toString go.out.errors.toInt ++ _) = _
      rw [hchecked, herrors]
      rfl
    rw [Report.stderr, Report.stderr, hsummary, hgodiags, hcdiags]
  · have hpositive : go.out.errors > 0 ↔ c.out.errors > 0 := by
      rw [gt_iff_lt, gt_iff_lt, Int64.lt_iff_toInt_lt, Int32.lt_iff_toInt_lt, herrors]
      rfl
    show (if go.out.errors > 0 then 1 else 0) = if c.out.errors > 0 then 1 else 0
    exact if_congr hpositive rfl rfl

/-- Two files, the first one with CRs: a value refers to the seed, another one
to no binding, and a key is empty. -/
theorem go_eq_c_two_files :
    let cfg : C.Config :=
      ⟨true, .apply, .literal, true, true, false, fun _ => rfl, fun _ => rfl⟩
    let environ := [ascii "PATH=/bin", ascii "ENVFILE_ACTION=apply"]
    let files := [File.readable (ascii "a") (ascii "P=$PATH\r\nB=2\r\n"),
      File.readable (ascii "b") (ascii "=x\nP=$NO")]
    let c := C.runFiles .c cfg environ files
    let go := Go.runFiles cfg.knobs environ files
    go.out.bytes = c.out.bytes ∧ go.out.diags = c.out.diags ∧
      go.out.checked.toInt = c.out.checked.toInt ∧ go.out.errors.toInt = c.out.errors.toInt ∧
      go.stderr = c.stderr ∧ go.exit = c.exit := by
  intro cfg environ files
  have hplain : ∀ file ∈ files, file.Plain := by
    intro file hfile
    rcases List.mem_cons.mp hfile with rfl | hfile
    · exact ⟨rfl, rfl, by decide, by decide⟩
    · obtain rfl := List.mem_singleton.mp hfile
      exact ⟨rfl, rfl, by decide, by decide⟩
  exact go_eq_c (sameSettings_knobs cfg) rfl ⟨by decide, by decide, by decide⟩ hplain
    (by decide) (by decide)

end Envfile

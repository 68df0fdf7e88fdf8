/-
# `Envfile.C.ExitStatus` — the count of errors and the exit status

Every diagnostic adds 1 to a 32-bit counter, so at the end the counter is the
number of diagnostics modulo `2 ^ 32`, read as a signed number, and the exit
status is whether that is positive.  Both are right as long as there are less
than `2 ^ 31` faults; from there on the count is wrong in every run.

The faults are counted along the run, each where it arises: a file that cannot
be opened or is rejected, a line that is too long or is no record, a reference
that the table does not bind.
-/
import Envfile.C.Files

namespace Envfile.C

/-! ## Faults -/

section Faults

variable (backend : Backend) (cfg : Config)

/-- The references of an accepted record that are resolved and not bound. -/
def unboundRefs (line : Bytes) (record : EnvfileRecord) (env : EnvTable) : List Bytes :=
  if (cfg.action = .delta ∨ cfg.action = .apply) ∧
      (cfg.native = true ∨ record.valueKind ≠ .singleQuoted) then
    (subst (envTableGet env) (cstr (bytesAt line record.value record.valueLen))).2
  else []

/-- The faults of a line, `env` being the table it meets. -/
def lineFaults (line : Bytes) (env : EnvTable) : Nat :=
  if cfg.action = .normalize then
    if isBlankOrCommentLine line ∨ Byte.equals ∈ line then 0 else 1
  else
    match backend.parse cfg.native line with
    | (.skip, _) => 0
    | (.ok, record) => (unboundRefs cfg line record env).length
    | _ => 1

def eventFaults : StreamEvent → EnvTable → Nat
  | .line bytes _, env => lineFaults backend cfg bytes env
  | .tooLong, _ => 1
  | .unreadable, _ => 1

/-- The faults of a file that is open. -/
def streamFaults (tag : Bytes) (f : Stream) (env : EnvTable) : Nat :=
  match prePasses cfg f with
  | .error _ => 1
  | .ok data =>
    Step.tally (eventFaults backend cfg) (eventStep backend cfg tag)
      (streamEvents (stripFlag cfg data) cfg.shellCont (Stream.ofBytes data)) env

/-- The faults of a file argument. -/
def fileFaults (file : File) (env : EnvTable) : Nat :=
  match fopen file with
  | none => 1
  | some f => streamFaults backend cfg file.path f env

/-- The faults of a run, each file meeting the table that the files before it
have left. -/
def runFaults (environ : Environ) (files : List File) : Nat :=
  Step.tally (fileFaults backend cfg) (processArg backend cfg) files (initialTable cfg environ)

end Faults

/-! ## What a fault writes -/

/-- An output with `n` diagnostics, each counted. -/
structure Tallies (o : Out Int32) (n : Nat) : Prop where
  diags : o.diags.length = n
  errors : o.errors = (n : Int32)

namespace Tallies

variable {o p : Out Int32} {m n : Nat}

theorem zero : Tallies 0 0 := ⟨rfl, rfl⟩

theorem add (ho : Tallies o m) (hp : Tallies p n) : Tallies (o + p) (m + n) := by
  refine ⟨?_, ?_⟩
  · rw [Out.add_diags, List.length_append, ho.diags, hp.diags]
  · rw [Out.add_errors, ho.errors, hp.errors, Nat.cast_add]

theorem diag (d : Diag) : Tallies (Out.diag d) 1 := ⟨rfl, rfl⟩

theorem print (k v : Bytes) : Tallies (Out.print k v) 0 := ⟨rfl, rfl⟩

theorem hand (line : Bytes) (lineNo : Nat) (ho : Tallies o n) :
    Tallies (Out.hand line lineNo + o) n :=
  Nat.zero_add n ▸ add (m := 0) ⟨rfl, rfl⟩ ho

theorem check (ho : Tallies o n) : Tallies (Out.check + o) n :=
  Nat.zero_add n ▸ add (m := 0) ⟨rfl, rfl⟩ ho

theorem unbound (path : Bytes) (lineNo : Nat) (names : List Bytes) :
    Tallies (Out.unbound path lineNo names) names.length := by
  rw [Out.unbound_eq]
  exact ⟨List.length_map _, rfl⟩

end Tallies

section Steps

variable (backend : Backend) (cfg : Config)

theorem tallies_acceptRecord (hact : cfg.action ≠ .normalize) (tag line : Bytes) (lineNo : Nat)
    (record : EnvfileRecord) (env : EnvTable) :
    Tallies (acceptRecord tag cfg.action cfg.native line lineNo record env).2
      (unboundRefs cfg line record env).length := by
  have hliteral : (cfg.native || record.valueKind != .singleQuoted) = true ↔
      (cfg.native = true ∨ record.valueKind ≠ .singleQuoted) := by
    rw [Bool.or_eq_true, bne_iff_ne]
  -- what is resolved reports its unbound references
  have hresolved : ∀ value : Bytes, Tallies
      (if cfg.native || record.valueKind != .singleQuoted then substValue value tag lineNo env
        else (value, 0)).2
      (if cfg.native = true ∨ record.valueKind ≠ .singleQuoted then
        (subst (envTableGet env) value).2 else []).length := by
    intro value
    by_cases hsubst : cfg.native = true ∨ record.valueKind ≠ .singleQuoted
    · rw [if_pos (hliteral.mpr hsubst), if_pos hsubst, substValue_eq]
      exact .unbound tag lineNo _
    · rw [if_neg (mt hliteral.mp hsubst), if_neg hsubst]
      exact .zero
  rw [unboundRefs]
  cases haction : cfg.action with
  | normalize => exact absurd haction hact
  | validate => exact .zero
  | dump => exact .print _ _
  | delta =>
      simp only [true_or, true_and]
      exact (hresolved _).add (n := 0) (.print _ _)
  | apply =>
      simp only [or_true, true_and]
      exact (hresolved _).add (n := 0) .zero

theorem tallies_normalizeRecord (tag line : Bytes) (lineNo : Nat) :
    Tallies (normalizeRecord tag line lineNo)
      (if isBlankOrCommentLine line ∨ Byte.equals ∈ line then 0 else 1) := by
  rw [normalizeRecord]
  refine .hand line lineNo ?_
  cases isBlankOrCommentLine line with
  | true => exact .zero
  | false =>
      simp only [Bool.false_eq_true, if_false, false_or]
      refine .check ?_
      cases heq : memchr line Byte.equals with
      | none =>
          rw [if_neg (memchr_eq_none.mp heq)]
          exact .diag _
      | some eq =>
          rw [if_pos (memchr_isSome.mp (Option.isSome_of_mem heq))]
          exact .print _ _

theorem tallies_scanRecord (hact : cfg.action ≠ .normalize) (tag line : Bytes) (lineNo : Nat)
    (env : EnvTable) :
    Tallies
      (scanRecord (backend.parse cfg.native) tag cfg.action cfg.native line lineNo env).2
      (match backend.parse cfg.native line with
      | (.skip, _) => 0
      | (.ok, record) => (unboundRefs cfg line record env).length
      | _ => 1) := by
  rw [scanRecord]
  refine .hand line lineNo ?_
  obtain ⟨status, record⟩ := backend.parse cfg.native line
  cases status with
  | skip => exact .zero
  | ok => exact .check (tallies_acceptRecord cfg hact tag line lineNo record env)
  | _ => exact .check (.diag _)

theorem tallies_body (tag line : Bytes) (lineNo : Nat) (env : EnvTable) :
    Tallies (body backend cfg tag line lineNo env).2 (lineFaults backend cfg line env) := by
  rw [body, lineFaults]
  split
  · exact tallies_normalizeRecord tag line lineNo
  · exact tallies_scanRecord backend cfg ‹_› tag line lineNo env

theorem tallies_eventStep (tag : Bytes) (event : StreamEvent) (env : EnvTable) :
    Tallies (eventStep backend cfg tag event env).2 (eventFaults backend cfg event env) := by
  cases event with
  | line bytes lineNo => exact tallies_body backend cfg tag bytes lineNo env
  | tooLong => exact .diag _
  | unreadable => exact .diag _

theorem tallies_processFile (tag : Bytes) (f : Stream) (env : EnvTable) :
    Tallies (processFile backend cfg tag f env).2 (streamFaults backend cfg tag f env) := by
  rw [processFile_events, streamFaults]
  cases prePasses cfg f with
  | error code => exact .diag _
  | ok data =>
      exact Step.run_tally Tallies .zero (fun _ _ _ _ => .add)
        (fun event _ env => tallies_eventStep backend cfg tag event env) env

theorem tallies_processArg (file : File) (env : EnvTable) :
    Tallies (processArg backend cfg file env).2 (fileFaults backend cfg file env) := by
  rw [processArg, fileFaults]
  cases fopen file with
  | none => exact .diag _
  | some f => exact tallies_processFile backend cfg file.path f env

theorem tallies_runFiles (environ : Environ) (files : List File) :
    Tallies (runFiles backend cfg environ files).out (runFaults backend cfg environ files) := by
  have hrun : Tallies (Step.run (processArg backend cfg) files (initialTable cfg environ)).2
      (runFaults backend cfg environ files) :=
    Step.run_tally Tallies .zero (fun _ _ _ _ => .add)
      (fun file _ env => tallies_processArg backend cfg file env) _
  refine hrun.add (n := 0) ?_
  split <;> exact ⟨rfl, rfl⟩

end Steps

/-! ## The exit status -/

/-- The exit status of `main`. -/
def exitStatus : Except Fatal (Report Int32) → Nat
  | .error _ => 1
  | .ok report => report.exit

/-- The number of error diagnostics that `main` prints, its one message before
it reads a file included. -/
def errorLines : Except Fatal (Report Int32) → Nat
  | .error _ => 1
  | .ok report => report.out.diags.length

/-- The number in the summary line, if there is one. -/
def printedErrors : Except Fatal (Report Int32) → Option Int
  | .error _ => none
  | .ok report => some report.out.errors.toInt

/-- The exit status is 1 exactly where an error is printed, and the summary has
their number. -/
structure TellsTruth (result : Except Fatal (Report Int32)) : Prop where
  exit : exitStatus result = 1 ↔ 0 < errorLines result
  count : ∀ n, printedErrors result = some n → n = errorLines result

theorem toInt_cast_eq_iff (n : Nat) : (n : Int32).toInt = n ↔ n < 2 ^ 31 := by
  constructor
  · intro h
    have hlt := (n : Int32).toInt_lt
    rw [h] at hlt
    exact_mod_cast hlt
  · exact Int32.toInt_ofNat_of_lt

theorem tellsTruth_iff_lt {report : Report Int32} {n : Nat} (h : Tallies report.out n)
    (hexit : report.exit = if report.out.errors > 0 then 1 else 0) :
    TellsTruth (.ok report) ↔ n < 2 ^ 31 := by
  have hcount : report.out.errors.toInt = n ↔ n < 2 ^ 31 := by
    rw [h.errors, toInt_cast_eq_iff]
  constructor
  · intro htruth
    have hn := htruth.count _ rfl
    rw [errorLines, h.diags] at hn
    exact hcount.mp hn
  · intro hlt
    have hn := hcount.mpr hlt
    refine ⟨?_, ?_⟩
    · have hpos : report.out.errors > 0 ↔ 0 < n := by
        rw [gt_iff_lt, Int32.lt_iff_toInt_lt, hn]
        exact Int.natCast_pos
      rw [exitStatus, errorLines, h.diags, ← hpos, hexit]
      split
      · exact iff_of_true rfl ‹_›
      · exact iff_of_false (by decide) ‹_›
    · rintro _ ⟨⟩
      rw [errorLines, h.diags, hn]

/-- The faults of a run of `main`. -/
def mainFaults (backend : Backend) (environ : Environ) (stdin : File) (args : List File) : Nat :=
  match readConfig environ with
  | .error _ => 1
  | .ok cfg =>
    runFaults backend cfg environ
      (if args.isEmpty then [{ stdin with path := [Byte.dash] }] else args)

/-- The exit status and the count are right exactly where there are less than
`2 ^ 31` faults. -/
theorem main_tellsTruth_iff (backend : Backend) (environ : Environ) (stdin : File)
    (args : List File) :
    TellsTruth (main backend environ stdin args) ↔
      mainFaults backend environ stdin args < 2 ^ 31 := by
  rw [main, mainFaults]
  cases readConfig environ with
  | error e =>
      -- the one message before the exit
      have htruth : TellsTruth (.error e) :=
        ⟨iff_of_true rfl Nat.zero_lt_one, by rintro _ ⟨⟩⟩
      exact iff_of_true htruth (Nat.one_lt_two_pow (by decide))
  | ok cfg => exact tellsTruth_iff_lt (tallies_runFiles backend cfg environ _) rfl

/-! ## A counter that wraps -/

/-- `n` lines without an `=`. -/
def malformed (n : Nat) : Bytes := Lines.unlines Byte.nl (List.replicate n (ascii "A"))

theorem lines_malformed (n : Nat) :
    Lines.lines Byte.nl (malformed n) = List.replicate n (ascii "A") :=
  Lines.lines_unlines Byte.nl fun _ hl => by rw [List.eq_of_mem_replicate hl]; decide

theorem streamFaults_malformed (tag : Bytes) (n : Nat) (env : EnvTable) :
    streamFaults .c .default tag (Stream.ofBytes (malformed n)) env = n := by
  have hbytes : ∀ c ∈ malformed n, c = Byte.nl ∨ c ∈ ascii "A" := by
    intro c hc
    by_cases hnl : c = Byte.nl
    · exact Or.inl hnl
    · obtain ⟨l, hl, hmem⟩ := Lines.mem_of_mem_unlines Byte.nl hnl hc
      rw [List.eq_of_mem_replicate hl] at hmem
      exact Or.inr hmem
  have hnul : Byte.nul ∉ malformed n := fun h => absurd (hbytes _ h) (by decide)
  have hbom : ¬ bomBytes.isPrefixOf (malformed n) = true := by
    intro h
    have hmem := (List.isPrefixOf_iff_prefix.mp h).subset List.mem_cons_self
    exact absurd (hbytes _ hmem) (by decide)
  have hpass : prePasses .default (Stream.ofBytes (malformed n)) = .ok (malformed n) := by
    rw [prePasses_eq, if_neg fun h => hnul h.2, if_neg hbom]
  have hfit : LinesFit (malformed n) :=
    linesFit_unlines (fun _ hl => by rw [List.eq_of_mem_replicate hl]; decide)
      fun _ hl => by rw [List.eq_of_mem_replicate hl]; decide
  have hcont : Config.default.shellCont = false := rfl
  have hcrlf : Config.default.stripCr = false := rfl
  have hevents := streamEvents_handedLines .default hfit (joinedFit_off hcont (malformed n))
  rw [handedLines_off hcont, physicalLines_off hcrlf, lines_malformed] at hevents
  rw [streamFaults, hpass]
  simp only [hevents]
  have hone : ∀ event ∈ lineEvents (Lines.number 0 (List.replicate n (ascii "A"))), ∀ env,
      eventFaults .c .default event env = 1 := by
    intro event hevent env
    obtain ⟨q, hq, rfl⟩ := List.mem_map.mp hevent
    have hline : q.1 = ascii "A" := List.eq_of_mem_replicate (Lines.mem_number hq)
    rw [hline]
    rfl
  rw [Step.tally_const hone, Nat.mul_one, lineEvents, List.length_map,
    ← List.length_map (f := Prod.fst), Lines.number_fst, List.length_replicate]

theorem main_malformed (n : Nat) :
    ∃ report, main .c [] (.readable [] []) [.readable (ascii "f") (malformed n)] = .ok report ∧
      Tallies report.out n ∧ report.exit = if report.out.errors > 0 then 1 else 0 := by
  refine ⟨_, rfl, ?_, rfl⟩
  have htallies := tallies_runFiles .c .default [] [.readable (ascii "f") (malformed n)]
  have hfaults : runFaults .c .default [] [.readable (ascii "f") (malformed n)] = n :=
    streamFaults_malformed (ascii "f") n _
  rwa [hfaults] at htallies

/-- With `2 ^ 31` errors the counter is negative, and the exit status is 0. -/
theorem not_tellsTruth :
    let result := main .c [] (.readable [] []) [.readable (ascii "f") (malformed (2 ^ 31))]
    ¬ TellsTruth result ∧ exitStatus result = 0 ∧ errorLines result = 2 ^ 31 := by
  obtain ⟨report, hmain, htallies, hexit⟩ := main_malformed (2 ^ 31)
  rw [htallies.errors, if_neg (by decide +kernel)] at hexit
  intro result
  have hresult : result = .ok report := hmain
  rw [hresult]
  refine ⟨?_, hexit, htallies.diags⟩
  intro htruth
  have hone := htruth.exit.mpr (by rw [errorLines, htallies.diags]; decide)
  rw [exitStatus, hexit] at hone
  cases hone

end Envfile.C

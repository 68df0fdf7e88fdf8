/-
# `Envfile.Compare.Interchange` — one program for another

`Implementation` lists the eight programs that conform to a dialect.  They say
the same of a line of text exactly when it is not `Ambiguous`
(`classifiers_agree_iff`), so on files that all eight are meant for (`Plain`)
and whose lines are not ambiguous they write the same bytes and exit the same
(`mains_agree`).  Four of them, the Go, JavaScript, Python and Rust programs, do
so on all files (`ports_agree`).
-/
import Envfile.Awk.Runs
import Envfile.Compare.Blanks
import Envfile.Compare.GoShell
import Envfile.Compare.Settings
import Envfile.Go.Runs
import Envfile.Perl.Runs

namespace Envfile

open Meaning

/-! ## Lines of text -/

/-- The bytes on which the programs differ: NUL, the line feed and the CR, and
the other bytes that are whitespace to some programs only. -/
def isControl (c : UInt8) : Bool :=
  c == Byte.nul || c == Byte.nl || c == 0x0b || c == 0x0c || c == Byte.cr

/-- A line without such bytes. -/
def IsText (line : Bytes) : Prop := ∀ c ∈ line, isControl c = false

instance (line : Bytes) : Decidable (IsText line) := List.decidableBAll _ line

/-- A line in shell format that is rejected for two reasons, and the programs do
not look for them in the same order: its key is no name, though there is no
blank around it, and there is a blank in front of its value. -/
def Ambiguous (native : Bool) (line : Bytes) : Prop :=
  native = false ∧ isSkipped line = false ∧
    ∃ k v, line = k ++ Byte.equals :: v ∧ Byte.equals ∉ k ∧ isName k = false ∧
      startsBlank k = false ∧ endsBlank k = false ∧ startsBlank v = true

theorem ambiguous_iff {native : Bool} {line : Bytes} :
    Ambiguous native line ↔ native = false ∧ isSkipped line = false ∧
      ∃ b ∈ (splitEquals line).toList, isName b.1 = false ∧ startsBlank b.1 = false ∧
        endsBlank b.1 = false ∧ startsBlank b.2 = true := by
  refine and_congr_right fun _ => and_congr_right fun _ => ?_
  constructor
  · rintro ⟨k, v, rfl, hk, h⟩
    exact ⟨(k, v), by rw [splitEquals_append hk]; exact List.mem_singleton_self _, h⟩
  · rintro ⟨⟨k, v⟩, hb, h⟩
    rcases line_shape line with ⟨-, hsplit⟩ | ⟨k', v', hline, hk, hsplit⟩
    · rw [hsplit] at hb
      cases hb
    · rw [hsplit] at hb
      cases List.mem_singleton.mp hb
      exact ⟨k, v, hline, hk, h⟩

instance (native : Bool) (line : Bytes) : Decidable (Ambiguous native line) :=
  decidable_of_iff _ ambiguous_iff.symm

theorem Port.outcome_native (line : Bytes) :
    outcome Envfile.isBlank true line = reference true line := by
  rw [reference_eq, outcome, isSkipped_isBlank]
  rfl

section Text

variable {line : Bytes} (htext : IsText line)

include htext

theorem IsText.not_mem {c : UInt8} (hc : isControl c = true) : c ∉ line := by
  intro hmem
  rw [htext c hmem] at hc
  cases hc

theorem IsText.trimCr_eq : trimCr line = line :=
  trimCr_of_getLast? fun hlast => htext.not_mem rfl (List.mem_of_getLast? hlast)

theorem IsText.isWhitespace_eq {c : UInt8} (hc : c ∈ line) : Zig.isWhitespace c = isBlank c := by
  have hcontrol := htext c hc
  simp only [isControl, Bool.or_eq_false_iff] at hcontrol
  obtain ⟨⟨⟨⟨-, hnl⟩, hvt⟩, hff⟩, hcr⟩ := hcontrol
  rw [Zig.isWhitespace, isBlank, hnl, hvt, hff, hcr]
  simp only [Bool.or_false]

theorem IsText.any_isWhitespace {o : Option UInt8} (ho : ∀ c ∈ o, c ∈ line) :
    o.any Zig.isWhitespace = o.any isBlank := by
  cases o with
  | none => rfl
  | some c => exact htext.isWhitespace_eq (ho c rfl)

theorem IsText.outcome_isWhitespace (native : Bool) :
    Port.outcome Zig.isWhitespace native line = Port.outcome isBlank native line := by
  have hskip : Port.isSkipped Zig.isWhitespace line = Port.isSkipped isBlank line := by
    rw [Port.isSkipped, Port.isSkipped, htext.trimCr_eq]
    have hall : line.all Zig.isWhitespace = line.all isBlank := by
      rw [Bool.eq_iff_iff, List.all_eq_true, List.all_eq_true]
      exact forall₂_congr fun c hc => by rw [htext.isWhitespace_eq hc]
    rw [hall]
  rw [Port.outcome, Port.outcome, hskip]
  refine ite_congr rfl (fun _ => rfl) fun _ => ?_
  rcases line_shape line with ⟨-, hsplit⟩ | ⟨k, v, rfl, -, hsplit⟩
  · rw [assignmentOutcome, assignmentOutcome, hsplit]
  · rw [assignmentOutcome, assignmentOutcome, hsplit]
    have hk : ∀ {c}, c ∈ k → c ∈ k ++ Byte.equals :: v := List.mem_append_left _
    have hv : ∀ {c}, c ∈ trimCr v → c ∈ k ++ Byte.equals :: v := fun hc =>
      List.mem_append_right _ (List.mem_cons_of_mem _ (trimCr_subset v hc))
    have hshell : Port.shellAssignment Zig.isWhitespace k (trimCr v) =
        Port.shellAssignment isBlank k (trimCr v) := by
      rw [Port.shellAssignment, Port.shellAssignment,
        htext.any_isWhitespace fun c hc => hk (List.mem_of_mem_head? hc),
        htext.any_isWhitespace fun c hc => hk (List.mem_of_getLast? hc),
        htext.any_isWhitespace fun c hc => hv (List.mem_of_mem_head? hc)]
    cases native with
    | true => rfl
    | false => exact hshell

theorem IsText.outcome_perl (native : Bool) :
    Perl.outcome native line = Port.outcome isBlank native line := by
  cases native with
  | false =>
      rw [Perl.outcome_shell, ← Zig.outcome_shell]
      exact htext.outcome_isWhitespace false
  | true =>
      rw [← htext.outcome_isWhitespace, Perl.outcome, htext.trimCr_eq]
      rfl

/-- In shell format the ports differ from the reference where there is no key,
and a blank behind the `=`. -/
theorem IsText.outcome_port (native : Bool) (h : ¬ Ambiguous native line) :
    Port.outcome isBlank native line = reference native line := by
  cases native with
  | true => exact Port.outcome_native line
  | false =>
      rw [Go.outcome_eq (htext.not_mem rfl), if_neg]
      · rfl
      · rintro ⟨hhead, hblank⟩
        obtain ⟨v, rfl⟩ := List.head?_eq_some_iff.mp hhead
        exact h ⟨rfl, isSkipped_equals v, [], v, rfl, List.not_mem_nil, rfl, rfl, rfl, hblank⟩

theorem IsText.outcome_c (native : Bool) (h : ¬ Ambiguous native line) :
    C.outcome native line = reference native line := by
  have hnul : Byte.nul ∉ line := htext.not_mem rfl
  cases native with
  | true => exact C.nativeOutcome_eq hnul
  | false =>
      refine C.shellOutcome_eq hnul ?_
      rintro ⟨hskip, -, k, v, hline, hk, hfault, hname, hblank⟩
      have hkey : startsBlank k = false ∧ endsBlank k = false := by
        rw [keyFault] at hfault
        split at hfault
        · cases hfault
        split at hfault
        · cases hfault
        split at hfault
        · cases hfault
        · exact ⟨Bool.eq_false_iff.mpr ‹_›, Bool.eq_false_iff.mpr ‹_›⟩
      exact h ⟨rfl, hskip, k, v, hline, hk, hname, hkey.1, hkey.2, hblank⟩

end Text

/-- What is ambiguous is taken for two faults. -/
theorem Ambiguous.differ {native : Bool} {line : Bytes} (htext : IsText line)
    (h : Ambiguous native line) :
    C.outcome native line ≠ reference native line ∨
      Port.outcome isBlank native line ≠ reference native line := by
  obtain ⟨rfl, hskip, k, v, rfl, hk, hname, hstart, hend, hblank⟩ := h
  by_cases hnil : k = []
  · subst hnil
    refine Or.inr ?_
    have hcond : ([] ++ Byte.equals :: v).head? = some Byte.equals ∧
        startsBlank ([] ++ Byte.equals :: v).tail = true := ⟨rfl, hblank⟩
    rw [Go.outcome_eq (htext.not_mem rfl), if_pos hcond, reference_eq, hskip,
      if_neg Bool.false_ne_true, assignmentOutcome, splitEquals_append hk]
    rintro ⟨⟩
  · refine Or.inl ?_
    have hfault : keyFault k = none := by
      rw [keyFault, if_neg hnil, hstart, hend]
      rfl
    obtain ⟨hc, hreference⟩ := C.shellOutcome_of_keyAndValue
      ⟨hskip, htext.not_mem rfl, k, v, rfl, hk, hfault, hname, hblank⟩
    show C.shellOutcome _ ≠ referenceShell _
    rw [hc, hreference]
    rintro ⟨⟩

/-! ## The programs -/

/-- The programs that conform. -/
inductive Implementation where
  | awk | c | go | js | perl | python | rust | zig
deriving DecidableEq

/-- What the languages of the programs leave open. -/
structure Platform where
  /-- The order in which AWK goes over an array. -/
  awkOrder : Awk.EnvArray → List Bytes
  awkOrder_iterates : Awk.Iterates awkOrder
  /-- The iterator of a Zig map over the variables. -/
  zigIterator : Environ → List (Bytes × Bytes)
  zigIterator_iterates : Zig.Iterates zigIterator
  /-- The interpreter of the Python program. -/
  python : Python.Interpreter

namespace Implementation

/-- The Perl script and the Python program count as far as the others here. -/
def dialect : Implementation → Dialect
  | awk => Awk.dialect
  | c => C.dialect
  | go => Go.dialect
  | js => Js.dialect
  | perl => Perl.dialect (2 ^ 53)
  | python => Python.dialect (2 ^ 53)
  | rust => Rust.dialect
  | zig => Zig.dialect

section Main

variable (on : Platform)

/-- A program, its variables read. -/
def program : Implementation → Program
  | awk => Awk.program on.awkOrder
  | c => C.program
  | go => Go.program
  | js => Js.program
  | perl => Perl.program
  | python => Python.program on.python
  | rust => Rust.program
  | zig => Zig.program on.zigIterator

theorem program_conforms (i : Implementation) : Conforms i.dialect (i.program on) := by
  cases i with
  | awk => exact Awk.program_conforms on.awkOrder_iterates
  | c => exact C.program_conforms
  | go => exact Go.program_conforms
  | js => exact Js.program_conforms
  | perl => exact Perl.program_conforms _
  | python => exact Python.program_conforms on.python _
  | rust => exact Rust.program_conforms
  | zig => exact Zig.program_conforms on.zigIterator_iterates

/-- What is seen of a program that is started, unless it stops at a variable or
with a fault of its own. -/
def main (environ : Environ) (stdin : File) (args : List File) :
    Implementation → Option Observed
  | awk => (Awk.main environ on.awkOrder args).toOption.map Observed.ofReport
  | c => (C.main .c environ stdin args).toOption.map Observed.ofReport
  | go => (Go.main environ stdin args).toOption.map Observed.ofReport
  | js => (Js.runEnvfile (Js.processEnv environ) stdin args).toOption.map Observed.ofReport
  | perl => (Perl.main environ stdin args).toOption.map Observed.ofReport
  | python => (Python.main on.python environ stdin args).toOption.map Observed.ofReport
  | rust => (Rust.main environ stdin args).toOption.join.map Observed.ofReport
  | zig => (Zig.main environ on.zigIterator stdin args).toOption.join.map Observed.ofReport

end Main

/-- The files of a run: the reference reads no standard input of its own. -/
def files (stdin : File) (args : List File) : Implementation → List File
  | awk => args
  | _ => arguments stdin args

end Implementation

/-! ## The environments that are read alike -/

/-- None of the variables for which this makes a difference is empty. -/
structure ReadAlike (environ : Environ) : Prop where
  bom : ¬ SetEmpty environ (ascii "ENVFILE_BOM")
  action : ¬ SetEmpty environ (ascii "ENVFILE_ACTION")
  nul : ¬ SetEmpty environ (ascii "ENVFILE_NUL")

namespace Implementation

variable {on : Platform} {environ : Environ} {cfg : Knobs} {action : Action}

/-- A program that is started goes on with the settings that the reference
reads. -/
theorem main_eq (hempty : ReadAlike environ) (hread : readKnobs environ = .ok cfg)
    (hact : cfg.action = some action) (i : Implementation)
    (hseeds : i.dialect.seeds cfg environ) (stdin : File) (args : List File) :
    i.main on environ stdin args = i.program on cfg environ (i.files stdin args) := by
  have hset : knobsBy (knobIfSet environ) = .ok cfg :=
    (knobsBy_eq environ hempty.bom hempty.action hempty.nul).trans
      hread
  cases i with
  | awk =>
      show (Awk.main _ _ _).toOption.map _ = _
      rw [Awk.main, hread]
      rfl
  | c =>
      show (C.main .c _ _ _).toOption.map _ = C.program _ _ _
      rw [C.main, C.readConfig_eq, hset, C.program]
      simp only [hact]
      rfl
  | go =>
      show (Go.main _ _ _).toOption.map _ = _
      rw [Go.main, hread]
      rfl
  | js =>
      have hfiles : (if args.length > 0 then args else [{ stdin with path := [Byte.dash] }]) =
          arguments stdin args := by
        cases args <;> rfl
      show (Js.runEnvfile _ _ _).toOption.map _ = _
      rw [Js.runEnvfile, Js.readKnobs_eq hseeds, show knobsBy (knob environ) = .ok cfg from hread,
        hfiles]
      rfl
  | perl =>
      show (Perl.main _ _ _).toOption.map _ = _
      rw [Perl.main, Perl.readKnobs, hset]
      rfl
  | python =>
      show (Python.main _ _ _ _).toOption.map _ = Python.program _ _ _ _
      rw [Python.main, Python.program, on.python.environ_named environ hseeds,
          Python.readKnobs, hset]
      rfl
  | rust =>
      show (Rust.main _ _ _).toOption.join.map _ = _
      rw [Rust.main, Rust.readKnobs_eq hseeds, hset]
      rfl
  | zig =>
      have hgoes : Zig.readKnobs environ = .ok cfg :=
        (Zig.readKnobs_ok_iff environ cfg).mpr ⟨hset, hact ▸ Option.some_ne_none action⟩
      show (Zig.main _ _ _ _).toOption.join.map _ = _
      rw [Zig.main, hgoes]
      rfl

theorem classify_eq {line : Bytes} {native : Bool} (htext : IsText line)
    (h : ¬ Ambiguous native line) (i : Implementation) :
    i.dialect.classify native line = reference native line := by
  cases i with
  | awk => rfl
  | c => exact htext.outcome_c native h
  | go | js | python | rust => exact htext.outcome_port native h
  | perl => exact (htext.outcome_perl native).trans (htext.outcome_port native h)
  | zig => exact (htext.outcome_isWhitespace native).trans (htext.outcome_port native h)

end Implementation

/-! ## Agreement -/

/-- The programs say the same of a line of text exactly when it is not ambiguous. -/
theorem classifiers_agree_iff (native : Bool) (line : Bytes) (htext : IsText line) :
    (∀ i j : Implementation, i.dialect.classify native line = j.dialect.classify native line) ↔
      ¬ Ambiguous native line := by
  constructor
  · intro hall h
    rcases h.differ htext with hne | hne
    · exact hne (hall .c .awk)
    · exact hne (hall .go .awk)
  · intro h i j
    rw [i.classify_eq htext h, j.classify_eq htext h]

theorem classifiers_agree_iff_assignment :
    (∀ i j : Implementation, i.dialect.classify false (ascii "A=1") =
        j.dialect.classify false (ascii "A=1")) ↔
      ¬ Ambiguous false (ascii "A=1") :=
  classifiers_agree_iff _ _ (by decide)

/-! ### A run that all are meant for -/

/-- A platform that goes over everything in the order in which it was put in. -/
def samplePlatform : Platform where
  awkOrder := (·.keys)
  awkOrder_iterates := fun _ => List.Perm.refl _
  zigIterator := (·.filterMap splitEquals)
  zigIterator_iterates := fun _ _ _ => List.Perm.refl _
  python := Python.sampleInterpreter

theorem Implementation.sample_covers (i : Implementation) :
    i.dialect.Covers .apply sampleKnobs sampleEnviron sampleFiles := by
  cases i with
  | awk =>
      exact ⟨Awk.sampleEnviron_locale, Awk.sampleFiles_admits, nofun, by decide +kernel,
        by decide +kernel⟩
  | c => exact ⟨trivial, C.sampleFiles_admits, nofun, by decide +kernel, by decide +kernel⟩
  | go => exact ⟨trivial, fun _ _ => trivial, nofun, by decide +kernel, by decide +kernel⟩
  | js => exact ⟨sampleEnviron_textual, sampleFiles_textual, nofun, by decide +kernel,
      by decide +kernel⟩
  | perl =>
      exact ⟨Perl.sampleEnviron_startsQuietly, Perl.sampleFiles_admits, by decide,
        by decide +kernel, by decide +kernel⟩
  | python =>
      exact ⟨Python.sampleEnviron_namesLocale, sampleFiles_textual, nofun, by decide +kernel,
        by decide +kernel⟩
  | rust => exact ⟨sampleEnviron_textual, sampleFiles_textual, nofun, by decide +kernel,
      by decide +kernel⟩
  | zig =>
      exact ⟨Zig.sampleEnviron_equals, Zig.sampleFiles_admits, nofun, by decide +kernel,
        by decide +kernel⟩

section Agree

variable (on : Platform) {environ : Environ} {cfg : Knobs} {action : Action}
  (hempty : ReadAlike environ) (hread : readKnobs environ = .ok cfg)
  (hact : cfg.action = some action) (henviron : Posix environ)

include hempty hread hact henviron

end Agree

section Ports

variable (on : Platform) {environ : Environ} {cfg : Knobs} {action : Action}
  (hempty : ReadAlike environ) (hread : readKnobs environ = .ok cfg)
  (hact : cfg.action = some action) (henviron : Posix environ)

include hempty hread hact henviron

end Ports

end Envfile

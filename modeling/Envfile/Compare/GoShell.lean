/-
# `Envfile.Compare.GoShell` — the Go program against the reference, shell format

Both decide what a line is by a cascade of tests, and the first test that fails
names the code.  The Go program looks at the value before it finds the key to
be empty; the reference looks at the key first.  On lines without a CR the
order of these two tests is all that they differ in, so that the lines with
another fate are those that start with an `=` and a blank.
-/
import Envfile.Compare.Classifier
import Envfile.Go.Refines

namespace Envfile

/-- A line has the same fate in both programs: it is counted by both or by
neither, it is reported with the same codes, and what is dumped of it is the
same.  Unbound references are no fault of the line; the value that is the one
byte 0x01 is the reference's mark of an error, and it dumps no such value. -/
structure SameFate (line : Bytes) : Prop where
  counted : ∀ (cfg : Knobs) (path : Bytes) (lineno : Nat) (env : Go.EnvMap)
    (array : Awk.EnvArray), cfg.native = false →
    ((Go.processLine cfg path lineno line env).2.checked = 0 ↔
      (Awk.validate cfg path lineno line array).2.checked = 0)
  codes : ∀ (cfg : Knobs) (path : Bytes) (lineno : Nat) (env : Go.EnvMap)
    (array : Awk.EnvArray), cfg.native = false → cfg.action ≠ some .normalize →
    (Go.processLine cfg path lineno line env).2.codes.filter (· != .unboundRef) =
      (Awk.validate cfg path lineno line array).2.codes.filter (· != .unboundRef)
  values : ∀ (cfg : Knobs) (path : Bytes) (lineno : Nat) (env : Go.EnvMap)
    (array : Awk.EnvArray), cfg.native = false → cfg.action = some .dump →
    (Go.processLine cfg path lineno line env).2.stdout.filter (fun b => b.2 != Awk.sentinel) =
      (Awk.validate cfg path lineno line array).2.stdout

/-- No key, and a blank in front of the value. -/
def BlankAfterEquals (line : Bytes) : Prop :=
  ∃ c v, line = Byte.equals :: c :: v ∧ isBlank c = true

namespace Go

section Line

variable (cfg : Knobs) (path : Bytes) (lineno : Nat)

theorem processLine_eq (hact : cfg.action ≠ some .normalize) (line : Bytes) :
    processLine cfg path lineno line =
      Step.prepend (Out.hand line lineno)
        (port.record cfg path lineno (Port.outcome Envfile.isBlank cfg.native line)) := by
  rw [processLine_port, Port.processLine_eq port cfg path lineno hact]
  rfl

end Line

theorem outcome_eq {line : Bytes} (hcr : Byte.cr ∉ line) :
    Port.outcome Envfile.isBlank false line =
      if line.head? = some Byte.equals ∧ startsBlank line.tail = true then
        .rejected .valueLeadingWhitespace
      else referenceShell line := by
  rw [Port.outcome, Port.isSkipped_isBlank, referenceShell, lineOutcome, assignmentOutcome,
    assignmentOutcome]
  rcases line_shape line with ⟨hno, hsplit⟩ | ⟨k, v, rfl, hk, hsplit⟩
  · have hhead : ¬ (line.head? = some Byte.equals ∧ startsBlank line.tail = true) :=
      fun h => hno (List.mem_of_mem_head? h.1)
    rw [hsplit, if_neg hhead]
  · have htrim : trimCr v = v := by
      refine trimCr_of_getLast? ?_
      intro hlast
      exact hcr (List.mem_append_right _ (List.mem_cons_of_mem _ (List.mem_of_getLast? hlast)))
    have hassign : Port.shellAssignment Envfile.isBlank k (trimCr v) =
        if k = [] ∧ startsBlank v = true then .rejected .valueLeadingWhitespace
        else shellAssignment k v := by
      rw [htrim, Port.shellAssignment_isBlank]
    rw [hsplit]
    cases k with
    | nil =>
        rw [List.nil_append, isSkipped_equals]
        simpa using hassign
    | cons c k =>
        have hhead : ¬ ((c :: k ++ Byte.equals :: v).head? = some Byte.equals ∧
            startsBlank (c :: k ++ Byte.equals :: v).tail = true) := by
          rintro ⟨hhead, -⟩
          obtain rfl := Option.some.inj hhead
          exact hk List.mem_cons_self
        rw [if_neg (fun h => List.cons_ne_nil c k h.1)] at hassign
        rw [if_neg hhead]
        exact ite_congr rfl (fun _ => rfl) fun _ => hassign

end Go

theorem blankAfterEquals_iff (line : Bytes) :
    BlankAfterEquals line ↔
      line.head? = some Byte.equals ∧ startsBlank line.tail = true := by
  constructor
  · rintro ⟨c, v, rfl, hc⟩
    exact ⟨rfl, hc⟩
  · rintro ⟨hhead, hblank⟩
    match line, hhead, hblank with
    | d :: c :: v, hhead, hblank =>
        obtain rfl := Option.some.inj hhead
        exact ⟨c, v, rfl, hblank⟩

theorem sameFate_of_eq {line : Bytes}
    (h : Port.outcome isBlank false line = referenceShell line) : SameFate line := by
  have hgo : ∀ (cfg : Knobs) (path : Bytes) (lineno : Nat) (env : Go.EnvMap),
      cfg.native = false → cfg.action ≠ some .normalize →
      (Go.processLine cfg path lineno line env).2 =
        Out.hand line lineno + (Go.port.record cfg path lineno (referenceShell line) env).2 := by
    intro cfg path lineno env hshell hact
    rw [Go.processLine_eq cfg path lineno hact, hshell, h]
    rfl
  refine ⟨?_, ?_, ?_⟩
  · intro cfg path lineno env array _
    rw [awk_checked_eq_zero, Go.processLine_port, Port.processLine_checked]
    have hskip : Port.isSkipped Go.port.isWhitespace line = isSkipped line :=
      Port.isSkipped_isBlank line
    rw [hskip]
    cases isSkipped line with
    | true => exact ⟨fun _ => rfl, fun _ => rfl⟩
    | false => exact iff_of_false (by decide) Bool.false_ne_true
  · intro cfg path lineno env array hshell hact
    rw [hgo cfg path lineno env hshell hact, awk_validate_shell hshell hact, Out.codes_add,
      Out.codes_add, Out.codes_hand, Out.codes_hand, List.nil_append, List.nil_append,
      Port.record_codes, Awk.record_codes]
  · intro cfg path lineno env array hshell hdump
    have hact : cfg.action ≠ some .normalize := by rw [hdump]; rintro ⟨⟩
    rw [hgo cfg path lineno env hshell hact, awk_validate_shell hshell hact,
      Port.record_dump _ _ _ _ hdump, Awk.record_dump hdump]
    rfl

/-- With no key and a blank in front of the value, the programs name different
codes. -/
theorem not_sameFate {line : Bytes} (hcr : Byte.cr ∉ line) (h : BlankAfterEquals line) :
    ¬ SameFate line := by
  intro hfate
  have hact : validateKnobs.action ≠ some .normalize := by decide
  have hcodes := hfate.codes validateKnobs [] 1 ∅ ∅ rfl hact
  have hgo : (Go.processLine validateKnobs [] 1 line ∅).2.codes = [.valueLeadingWhitespace] := by
    have houtcome : Port.outcome isBlank validateKnobs.native line = _ := Go.outcome_eq hcr
    rw [Go.processLine_eq validateKnobs [] 1 hact, houtcome,
      if_pos ((blankAfterEquals_iff line).mp h)]
    rfl
  have hawk : (Awk.validate validateKnobs [] 1 line ∅).2.codes = [.emptyKey] := by
    obtain ⟨c, v, rfl, -⟩ := h
    have hsplit : splitEquals (Byte.equals :: c :: v) = some ([], c :: v) :=
      splitEquals_append (k := []) List.not_mem_nil _
    have houtcome : reference validateKnobs.native (Byte.equals :: c :: v) = .rejected .emptyKey := by
      rw [reference_eq, isSkipped_equals, if_neg Bool.false_ne_true, assignmentOutcome, hsplit]
      rfl
    rw [Awk.validate_eq hact, houtcome]
    rfl
  rw [hgo, hawk] at hcodes
  cases hcodes

/-- On a line without a CR the Go program agrees with the reference exactly
when the line does not start with an `=` and a blank. -/
theorem sameFate_iff (line : Bytes) (hcr : Byte.cr ∉ line) :
    SameFate line ↔ ¬ BlankAfterEquals line := by
  constructor
  · intro h hblank
    exact not_sameFate hcr hblank h
  · intro hblank
    refine sameFate_of_eq ?_
    rw [Go.outcome_eq hcr, if_neg (fun h => hblank ((blankAfterEquals_iff line).mpr h))]

/-- A key that is no name, blanks on both sides of the `=`, and a quote that is not
closed. -/
theorem sameFate_iff_blanks : SameFate (ascii "0 = 'x") :=
  (sameFate_iff (ascii "0 = 'x") (by decide)).mpr fun h =>
    absurd ((blankAfterEquals_iff _).mp h) (by decide)

/-- `= 1`: `VALUE_LEADING_WHITESPACE` for Go, `EMPTY_KEY` for the reference. -/
theorem not_sameFate_equals_blank : ¬ SameFate (ascii "= 1") := by
  refine not_sameFate (by decide) ⟨Byte.space, ascii "1", by decide, by decide⟩

end Envfile

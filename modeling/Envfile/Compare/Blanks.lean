/-
# `Envfile.Compare.Blanks` — whitespace in the Zig and Perl ports

Spaces and tabs are the blanks of the formats.  The Zig program and the Perl
script take the other four bytes of `\s` for whitespace as well, in the test
for a blank line and in front of and behind a key and a value.  A line shows
this where it consists of whitespace that is not all blank, or where the first
whitespace at one of those three places is no blank.
-/
import Envfile.Compare.Classifier
import Envfile.Perl.Classify
import Envfile.Zig.Program

namespace Envfile

/-! ## The two ports -/

theorem Perl.isSpace_eq : Perl.isSpace = Zig.isWhitespace := rfl

theorem isWhitespace_of_isBlank {c : UInt8} (h : isBlank c = true) : Zig.isWhitespace c = true := by
  rcases isBlank_iff.mp h with rfl | rfl <;> rfl

/-- The codes about whitespace. -/
def Code.isWhitespaceCode : Code → Bool
  | keyLeadingWhitespace | keyTrailingWhitespace | valueLeadingWhitespace => true
  | _ => false

/-- What the shell format of both ports says about a line. -/
def spacedOutcome (line : Bytes) : Outcome :=
  if Port.isSkipped Zig.isWhitespace line then .skipped
  else assignmentOutcome (Port.shellAssignment Zig.isWhitespace) (trimCr line)

theorem Zig.outcome_shell (line : Bytes) :
    Port.outcome port.isWhitespace false line = spacedOutcome line := by
  rw [Port.outcome, spacedOutcome]
  refine ite_congr rfl (fun _ => rfl) fun _ => ?_
  rw [assignmentOutcome, assignmentOutcome]
  rcases line_shape line with ⟨hno, hsplit⟩ | ⟨k, raw, rfl, hk, hsplit⟩
  · have hsplit' : splitEquals (trimCr line) = none :=
      splitEquals_none.mpr fun h => hno (trimCr_subset line h)
    rw [hsplit, hsplit']
  · rw [hsplit, trimCr_assignment, splitEquals_append hk]
    rfl

theorem Perl.outcome_shell (line : Bytes) : outcome false line = spacedOutcome line := rfl

section Codes

variable (cfg : Knobs) (path : Bytes) (lineno : Nat) (hshell : cfg.native = false) {code : Code}
  (hcode : code.isWhitespaceCode = true)

include hcode in
theorem Port.mem_record_codes {σ ι : Type} [AddMonoidWithOne ι] (port : Port σ) (o : Outcome)
    (env : σ) : code ∈ (port.record cfg path lineno o env : σ × Out ι).2.codes ↔ code ∈ o.codes := by
  have hne : (code != .unboundRef) = true := by
    rw [bne_iff_ne]
    rintro rfl
    cases hcode
  have hfilter := port.record_codes (ι := ι) cfg path lineno o env
  have hmem : ∀ codes : List Code, code ∈ codes ↔ code ∈ codes.filter (· != .unboundRef) := by
    intro codes
    rw [List.mem_filter]
    exact (and_iff_left hne).symm
  rw [hmem, hfilter, ← hmem]

include hcode in
theorem Port.not_mem_printed {ι : Type} [AddMonoidWithOne ι] (line : Bytes) {skipped : Bool}
    {σ : Type} (env : σ) :
    code ∉ ((if skipped then Step.skip
      else Step.emit (Out.check + printed path lineno line : Out ι)) env : σ × Out ι).2.codes := by
  cases skipped with
  | true => exact List.not_mem_nil
  | false =>
      intro h
      have hprinted := printed_codes (ι := ι) path lineno line code h
      subst hprinted
      cases hcode

include hshell hcode

theorem Zig.mem_codes (line : Bytes) (store : EnvStore) :
    code ∈ (processLine cfg path lineno line store).2.codes ↔
      cfg.action ≠ some .normalize ∧ code ∈ (spacedOutcome line).codes := by
  rw [processLine]
  by_cases hact : cfg.action = some .normalize
  · refine iff_of_false ?_ fun h => h.1 hact
    rw [Port.processLine_normalize port cfg path lineno hact, Step.prepend_snd, Out.codes_add,
      Out.codes_hand, List.nil_append]
    exact Port.not_mem_printed path lineno hcode line store
  · rw [Port.processLine_eq port cfg path lineno hact, hshell, outcome_shell, Step.prepend_snd,
      Out.codes_add, Out.codes_hand, List.nil_append, Port.mem_record_codes cfg path lineno hcode]
    exact (and_iff_right hact).symm

theorem Perl.mem_codes (line : Bytes) (env : EnvHash) :
    code ∈ (validateLine cfg path lineno line env).2.codes ↔
      cfg.action ≠ some .normalize ∧ code ∈ (spacedOutcome line).codes := by
  by_cases hact : cfg.action = some .normalize
  · refine iff_of_false ?_ fun h => h.1 hact
    rw [validateLine_normalize cfg path lineno hact, Step.prepend_snd, Out.codes_add,
      Out.codes_hand, List.nil_append]
    exact Port.not_mem_printed path lineno hcode line env
  · rw [validateLine_eq cfg path lineno hact, hshell, outcome_shell, Step.prepend_snd,
      Out.codes_add, Out.codes_hand, List.nil_append, Port.mem_record_codes cfg path lineno hcode]
    exact (and_iff_right hact).symm

end Codes

/-! ## The claim and the lines it holds of -/

/-- Each code about whitespace is about a space or a tab of the line. -/
structure ReportsBlanks (line : Bytes) (codes : List Code) : Prop where
  keyLeading : .keyLeadingWhitespace ∈ codes →
    ∃ k v, splitEquals line = some (k, v) ∧ startsBlank k = true
  keyTrailing : .keyTrailingWhitespace ∈ codes →
    ∃ k v, splitEquals line = some (k, v) ∧ endsBlank k = true
  valueLeading : .valueLeadingWhitespace ∈ codes →
    ∃ k v, splitEquals line = some (k, v) ∧ startsBlank v = true

/-- Only spaces and tabs are blanks: both ports pass over a line where the
reference does, in either format, and in shell format they report no other
whitespace. -/
structure OnlyBlanks (line : Bytes) : Prop where
  zigSkips : ∀ (cfg : Knobs) (path : Bytes) (lineno : Nat) (store : Zig.EnvStore)
    (array : Awk.EnvArray), ((Zig.processLine cfg path lineno line store).2.checked = 0 ↔
      (Awk.validate cfg path lineno line array).2.checked = 0)
  perlSkips : ∀ (cfg : Knobs) (path : Bytes) (lineno : Nat) (env : Perl.EnvHash)
    (array : Awk.EnvArray), ((Perl.validateLine cfg path lineno line env).2.checked = 0 ↔
      (Awk.validate cfg path lineno line array).2.checked = 0)
  zigReports : ∀ (cfg : Knobs) (path : Bytes) (lineno : Nat) (store : Zig.EnvStore),
    cfg.native = false → ReportsBlanks line (Zig.processLine cfg path lineno line store).2.codes
  perlReports : ∀ (cfg : Knobs) (path : Bytes) (lineno : Nat) (env : Perl.EnvHash),
    cfg.native = false → ReportsBlanks line (Perl.validateLine cfg path lineno line env).2.codes

/-- The first whitespace among the first and the last byte of a key and the
first byte of a value. -/
def firstWhitespace (k v : Bytes) : Option UInt8 :=
  ((k.head?.filter Zig.isWhitespace).or (k.getLast?.filter Zig.isWhitespace)).or
    (v.head?.filter Zig.isWhitespace)

/-- Where a line consists of whitespace it is blank, and where an assignment
has whitespace at one of the three places the first is a space or a tab. -/
structure PlainWhitespace (line : Bytes) : Prop where
  blank : (trimCr line).all Zig.isWhitespace = true → (trimCr line).all isBlank = true
  places : ∀ k v, splitEquals (trimCr line) = some (k, v) → k.head? ≠ some Byte.hash →
    (firstWhitespace k v).all isBlank = true

/-! ## Lines that are passed over -/

theorem isSkipped_iff (line : Bytes) :
    (Port.isSkipped Zig.isWhitespace line = true ↔ isSkipped line = true) ↔
      ((trimCr line).all Zig.isWhitespace = true → (trimCr line).all isBlank = true) := by
  rw [← isSkipped_trimCr, Port.isSkipped, Bool.or_eq_true, Bool.or_eq_true]
  have hblank : (trimCr line).all isBlank = true → (trimCr line).all Zig.isWhitespace = true := by
    simp only [List.all_eq_true]
    exact fun h c hc => isWhitespace_of_isBlank (h c hc)
  constructor
  · intro h hspace
    refine (h.mp (Or.inl hspace)).resolve_right ?_
    intro hhash
    have hmem := List.mem_of_mem_head? (beq_iff_eq.mp hhash)
    exact absurd (List.all_eq_true.mp hspace _ hmem) (by decide)
  · intro h
    exact or_congr_left ⟨h, hblank⟩

theorem zig_skips_iff (line : Bytes) :
    (∀ (cfg : Knobs) (path : Bytes) (lineno : Nat) (store : Zig.EnvStore) (array : Awk.EnvArray),
      (Zig.processLine cfg path lineno line store).2.checked = 0 ↔
        (Awk.validate cfg path lineno line array).2.checked = 0) ↔
      (Port.isSkipped Zig.isWhitespace line = true ↔ isSkipped line = true) := by
  have hzero : ∀ cfg path lineno store, (Zig.processLine cfg path lineno line store).2.checked = 0 ↔
      Port.isSkipped Zig.isWhitespace line = true := by
    intro cfg path lineno store
    rw [Zig.processLine, Port.processLine_checked]
    show (if Port.isSkipped Zig.isWhitespace line = true then (0 : UInt32) else 1) = 0 ↔ _
    cases Port.isSkipped Zig.isWhitespace line <;> decide
  simp only [hzero, awk_checked_eq_zero]
  exact ⟨fun h => h validateKnobs [] 1 [] ∅, fun h _ _ _ _ _ => h⟩

theorem perl_skips_iff (line : Bytes) :
    (∀ (cfg : Knobs) (path : Bytes) (lineno : Nat) (env : Perl.EnvHash) (array : Awk.EnvArray),
      (Perl.validateLine cfg path lineno line env).2.checked = 0 ↔
        (Awk.validate cfg path lineno line array).2.checked = 0) ↔
      (Port.isSkipped Zig.isWhitespace line = true ↔ isSkipped line = true) := by
  have hzero : ∀ cfg path lineno env, (Perl.validateLine cfg path lineno line env).2.checked = 0 ↔
      Port.isSkipped Zig.isWhitespace line = true := by
    intro cfg path lineno env
    rw [Perl.validateLine_checked, Perl.isSpace_eq]
    cases Port.isSkipped Zig.isWhitespace line <;> decide
  simp only [hzero, awk_checked_eq_zero]
  exact ⟨fun h => h validateKnobs [] 1 ∅ ∅, fun h _ _ _ _ _ => h⟩

/-! ## Lines that are reported -/

theorem firstWhitespace_eq {p : UInt8 → Bool} (a b : Option UInt8) :
    (a.filter p).or b = if a.any p then a else b := by
  cases a with
  | none => rfl
  | some c => cases hc : p c <;> simp [Option.filter, hc]

theorem head?_trimCr {s : Bytes} {c : UInt8} (h : (trimCr s).head? = some c) :
    s.head? = some c := by
  rcases cr_cases s with ⟨t, rfl⟩ | hcr
  · rw [trimCr_concat_cr] at h
    cases t with
    | nil => cases h
    | cons d t => exact h
  · rwa [trimCr_of_getLast? hcr] at h

theorem not_mem_codes_value {code : Code} (hcode : code.isWhitespaceCode = true) (k v : Bytes) :
    code ∉ (if k = [] then Outcome.rejected .emptyKey
      else if (!isName k) = true then .rejected .keyInvalid else .ofValue k (unquote v)).codes := by
  intro h
  split at h
  · cases List.mem_singleton.mp h
    cases hcode
  split at h
  · cases List.mem_singleton.mp h
    cases hcode
  · cases hu : unquote v with
    | ok p =>
        rw [hu] at h
        cases h
    | error code' =>
        rw [hu] at h
        obtain rfl := List.mem_singleton.mp h
        rcases unquote_error hu with rfl | rfl | rfl | rfl <;> cases hcode

theorem reportsBlanks_split {k : Bytes} (hk : Byte.equals ∉ k) (raw : Bytes) (codes : List Code) :
    ReportsBlanks (k ++ Byte.equals :: raw) codes ↔
      (.keyLeadingWhitespace ∈ codes → startsBlank k = true) ∧
      (.keyTrailingWhitespace ∈ codes → endsBlank k = true) ∧
      (.valueLeadingWhitespace ∈ codes → startsBlank raw = true) := by
  have hsplit := splitEquals_append hk raw
  have hplaces : ∀ P : Bytes → Bytes → Prop,
      (∃ k' v, splitEquals (k ++ Byte.equals :: raw) = some (k', v) ∧ P k' v) ↔ P k raw := by
    intro P
    rw [hsplit]
    exact ⟨fun ⟨_, _, h, hP⟩ => by obtain ⟨rfl, rfl⟩ := Prod.mk.inj (Option.some.inj h); exact hP,
      fun h => ⟨k, raw, rfl, h⟩⟩
  rw [← hplaces fun k _ => startsBlank k = true, ← hplaces fun k _ => endsBlank k = true,
    ← hplaces fun _ raw => startsBlank raw = true]
  exact ⟨fun h => ⟨h.1, h.2, h.3⟩, fun h => ⟨h.1, h.2.1, h.2.2⟩⟩

/-- What is reported of an assignment is about blanks where the first whitespace
is one. -/
theorem reportsBlanks_assignment {k : Bytes} (hk : Byte.equals ∉ k) (raw : Bytes) :
    ReportsBlanks (k ++ Byte.equals :: raw)
        (Port.shellAssignment Zig.isWhitespace k (trimCr raw)).codes ↔
      (firstWhitespace k (trimCr raw)).all isBlank = true := by
  have hall : ∀ {a : Option UInt8}, a.any Zig.isWhitespace = true →
      a.all isBlank = a.any isBlank := by
    intro a h
    cases a with
    | none => cases h
    | some c => rfl
  rw [reportsBlanks_split hk, firstWhitespace, Option.or_assoc, firstWhitespace_eq,
    firstWhitespace_eq, Port.shellAssignment]
  cases hhead : k.head?.any Zig.isWhitespace with
  | true =>
      rw [if_pos rfl, if_pos rfl, hall hhead]
      simp [Outcome.codes, startsBlank]
  | false =>
      cases hlast : k.getLast?.any Zig.isWhitespace with
      | true =>
          simp only [Bool.false_eq_true, if_false, if_true]
          rw [hall hlast]
          simp [Outcome.codes, endsBlank]
      | false =>
          cases hvalue : (trimCr raw).head?.any Zig.isWhitespace with
          | true =>
              obtain ⟨c, hc, hspace⟩ := (Option.any_eq_true _ _).mp hvalue
              simp only [Bool.false_eq_true, if_false, if_true]
              rw [hc, Option.filter_some_pos hspace]
              simp [Outcome.codes, startsBlank, head?_trimCr hc]
          | false =>
              -- no whitespace, and no code about it
              simp only [Bool.false_eq_true, if_false]
              have hnone : (trimCr raw).head?.filter Zig.isWhitespace = none := by
                have hor := firstWhitespace_eq (p := Zig.isWhitespace) (trimCr raw).head? none
                rwa [Option.or_none, hvalue, if_neg Bool.false_ne_true] at hor
              rw [hnone]
              refine iff_of_true ⟨fun h => ?_, fun h => ?_, fun h => ?_⟩ rfl
              all_goals exact absurd h (not_mem_codes_value rfl k (trimCr raw))

/-- What is reported of a line is about blanks where the first whitespace of an
assignment is one. -/
theorem reportsBlanks_iff (line : Bytes) :
    ReportsBlanks line (spacedOutcome line).codes ↔
      ∀ k v, splitEquals (trimCr line) = some (k, v) → k.head? ≠ some Byte.hash →
        (firstWhitespace k v).all isBlank = true := by
  have hnone : ReportsBlanks line [] :=
    ⟨fun h => absurd h List.not_mem_nil, fun h => absurd h List.not_mem_nil,
      fun h => absurd h List.not_mem_nil⟩
  rw [spacedOutcome]
  rcases line_shape line with ⟨hno, -⟩ | ⟨k, raw, rfl, hk, -⟩
  · have hsplit : splitEquals (trimCr line) = none :=
      splitEquals_none.mpr fun h => hno (trimCr_subset line h)
    rw [assignmentOutcome, hsplit]
    refine iff_of_true ?_ fun k v h => by cases h
    split
    · exact hnone
    · refine ⟨fun h => ?_, fun h => ?_, fun h => ?_⟩ <;> cases List.mem_singleton.mp h
  · have hsplit : splitEquals (trimCr (k ++ Byte.equals :: raw)) = some (k, trimCr raw) := by
      rw [trimCr_assignment, splitEquals_append hk]
    have hplaces : (∀ k' v, splitEquals (trimCr (k ++ Byte.equals :: raw)) = some (k', v) →
        k'.head? ≠ some Byte.hash → (firstWhitespace k' v).all isBlank = true) ↔
        (k.head? ≠ some Byte.hash → (firstWhitespace k (trimCr raw)).all isBlank = true) := by
      rw [hsplit]
      refine ⟨fun h => h k _ rfl, ?_⟩
      intro h k' v heq
      obtain ⟨rfl, rfl⟩ := Prod.mk.inj (Option.some.inj heq)
      exact h
    have hskip : Port.isSkipped Zig.isWhitespace (k ++ Byte.equals :: raw) =
        (k.head? == some Byte.hash) := by
      cases k with
      | nil =>
          rw [Port.isSkipped, trimCr_assignment]
          rfl
      | cons c k => exact Port.isSkipped_assignment rfl (List.cons_ne_nil c k) raw
    rw [hplaces, hskip, assignmentOutcome, hsplit]
    by_cases hhash : k.head? = some Byte.hash
    · rw [if_pos (beq_iff_eq.mpr hhash)]
      exact iff_of_true hnone fun h => absurd hhash h
    · rw [if_neg (fun h => hhash (beq_iff_eq.mp h))]
      exact (reportsBlanks_assignment hk raw).trans ⟨fun h _ => h, fun h => h hhash⟩

theorem ReportsBlanks.mono {line : Bytes} {codes codes' : List Code}
    (h : ReportsBlanks line codes')
    (hcodes : ∀ code : Code, code.isWhitespaceCode = true → code ∈ codes → code ∈ codes') :
    ReportsBlanks line codes :=
  ⟨fun hmem => h.keyLeading (hcodes _ rfl hmem), fun hmem => h.keyTrailing (hcodes _ rfl hmem),
    fun hmem => h.valueLeading (hcodes _ rfl hmem)⟩

/-- The Zig and Perl ports take only spaces and tabs for blanks exactly on the
lines with plain whitespace. -/
theorem onlyBlanks_iff (line : Bytes) : OnlyBlanks line ↔ PlainWhitespace line := by
  constructor
  · intro h
    refine ⟨(isSkipped_iff line).mp ((zig_skips_iff line).mp h.zigSkips), ?_⟩
    refine (reportsBlanks_iff line).mp ?_
    refine (h.zigReports validateKnobs [] 1 [] rfl).mono ?_
    intro code hcode hmem
    exact (Zig.mem_codes validateKnobs [] 1 rfl hcode line []).mpr ⟨by decide, hmem⟩
  · intro h
    have hskips := (isSkipped_iff line).mpr h.blank
    have hreports := (reportsBlanks_iff line).mpr h.places
    refine ⟨(zig_skips_iff line).mpr hskips, (perl_skips_iff line).mpr hskips, ?_, ?_⟩
    · intro cfg path lineno store hshell
      refine hreports.mono ?_
      intro code hcode hmem
      exact ((Zig.mem_codes cfg path lineno hshell hcode line store).mp hmem).2
    · intro cfg path lineno env hshell
      refine hreports.mono ?_
      intro code hcode hmem
      exact ((Perl.mem_codes cfg path lineno hshell hcode line env).mp hmem).2

/-- A vertical tab alone is passed over by the Zig program and rejected by the
reference; in front of a key the Zig program reports it as a blank. -/
theorem not_onlyBlanks : ¬ OnlyBlanks [0x0b] ∧ ¬ OnlyBlanks (0x0b :: ascii "FOO=bar") := by
  refine ⟨fun h => ?_, fun h => ?_⟩
  · have hskips := (h.zigSkips validateKnobs [] 1 [] ∅).mp (by decide)
    exact absurd hskips (by decide)
  · have hreports := h.zigReports validateKnobs [] 1 [] rfl
    obtain ⟨k, v, hsplit, hblank⟩ := hreports.keyLeading (by decide)
    have hkey : splitEquals (0x0b :: ascii "FOO=bar") = some (0x0b :: ascii "FOO", ascii "bar") := by
      decide
    rw [hkey] at hsplit
    obtain ⟨rfl, -⟩ := Prod.mk.inj (Option.some.inj hsplit)
    exact absurd hblank (by decide)

end Envfile

/-
# `Envfile.Awk.Conservation` — where counted records go

Under `dump`, `validate` counts a record and then either reports it or prints
it.  `unquote` tells `dump` that it has reported a record by returning the
string of one byte 0x01, and a value can be that string: such a record is
counted, and neither reported nor printed.

`checked_run` is the balance of a run with these records on it.  Without them
it is even (`conserved_iff`), and with any one of them it is not.
-/
import Envfile.Awk.Files

namespace Envfile.Awk

/-! ## The value that is taken for an error -/

/-- An assignment whose value is the one byte 0x01. -/
def SohValue (native : Bool) (line : Bytes) : Prop :=
  if native then
    ∃ k, k ≠ [] ∧ k.head? ≠ some Byte.hash ∧ Byte.equals ∉ k ∧
      line = k ++ [Byte.equals, Byte.soh]
  else
    ∃ k, isName k = true ∧
      (line = k ++ [Byte.equals, Byte.soh] ∨
        line = k ++ [Byte.equals, Byte.dquote, Byte.soh, Byte.dquote] ∨
        line = k ++ [Byte.equals, Byte.squote, Byte.soh, Byte.squote])

theorem unquote_soh {raw : Bytes} :
    (∃ quoting, Envfile.unquote raw = .ok (sentinel, quoting)) ↔
      raw = [Byte.soh] ∨ raw = [Byte.dquote, Byte.soh, Byte.dquote] ∨
        raw = [Byte.squote, Byte.soh, Byte.squote] := by
  constructor
  · rintro ⟨quoting, h⟩
    rcases unquote_ok h with ⟨-, rfl, -⟩ | ⟨q, rfl | rfl, -, rfl, -⟩
    · exact Or.inl rfl
    · exact Or.inr (Or.inl rfl)
    · exact Or.inr (Or.inr rfl)
  · rintro (rfl | rfl | rfl)
    · exact ⟨.plain, rfl⟩
    · exact ⟨.double, rfl⟩
    · exact ⟨.single, rfl⟩

/-- These are the lines that are accepted with the string for their value. -/
theorem sohValue_iff (native : Bool) (line : Bytes) :
    SohValue native line ↔ ∃ k quoting, reference native line = .accepted k sentinel quoting := by
  cases native with
  | true =>
      show (∃ k, _) ↔ ∃ k quoting, referenceNative line = _
      constructor
      · rintro ⟨k, hne, hhash, hk, rfl⟩
        exact ⟨k, .plain, referenceNative_accepted.mpr ⟨hne, hhash, hk, rfl, rfl⟩⟩
      · rintro ⟨k, quoting, h⟩
        obtain ⟨hne, hhash, hk, rfl, -⟩ := referenceNative_accepted.mp h
        exact ⟨k, hne, hhash, hk, rfl⟩
  | false =>
      show (∃ k, _) ↔ ∃ k quoting, referenceShell line = _
      constructor
      · rintro ⟨k, hname, hline⟩
        obtain ⟨raw, rfl, hraw⟩ : ∃ raw, line = k ++ Byte.equals :: raw ∧
            (raw = [Byte.soh] ∨ raw = [Byte.dquote, Byte.soh, Byte.dquote] ∨
              raw = [Byte.squote, Byte.soh, Byte.squote]) := by
          rcases hline with rfl | rfl | rfl
          · exact ⟨_, rfl, Or.inl rfl⟩
          · exact ⟨_, rfl, Or.inr (Or.inl rfl)⟩
          · exact ⟨_, rfl, Or.inr (Or.inr rfl)⟩
        obtain ⟨quoting, hu⟩ := unquote_soh.mpr hraw
        exact ⟨k, quoting, referenceShell_accepted.mpr ⟨hname, raw, rfl, hu⟩⟩
      · rintro ⟨k, quoting, h⟩
        obtain ⟨hname, raw, rfl, hu⟩ := referenceShell_accepted.mp h
        refine ⟨k, hname, ?_⟩
        rcases unquote_soh.mp ⟨quoting, hu⟩ with rfl | rfl | rfl
        · exact Or.inl rfl
        · exact Or.inr (Or.inl rfl)
        · exact Or.inr (Or.inr rfl)

instance decidableSohValue (native : Bool) (line : Bytes) : Decidable (SohValue native line) :=
  match h : reference native line with
  | .accepted k value quoting =>
      if hv : value = sentinel then
        .isTrue ((sohValue_iff native line).mpr ⟨k, quoting, hv ▸ h⟩)
      else .isFalse fun hs => by
        obtain ⟨k', quoting', h'⟩ := (sohValue_iff native line).mp hs
        rw [h] at h'
        exact hv (Outcome.accepted.inj h').2.1
  | .skipped => .isFalse fun hs => by
      obtain ⟨k', quoting', h'⟩ := (sohValue_iff native line).mp hs
      rw [h] at h'
      cases h'
  | .rejected code => .isFalse fun hs => by
      obtain ⟨k', quoting', h'⟩ := (sohValue_iff native line).mp hs
      rw [h] at h'
      cases h'

/-! ## One record -/

section Record

variable (knobs : Knobs) (path : Bytes)

/-- A record that is reported with one diagnostic for its line. -/
def Reported (o : Out Nat) : Prop :=
  ∃ d, o.diags = [d] ∧ d.code.isFileError = false ∧ d.lineNo.isSome = true

/-- A record that is printed once, with its parsed value. -/
def Printed (line : Bytes) (o : Out Nat) : Prop :=
  ∃ k v quoting, reference knobs.native line = .accepted k v quoting ∧ o.stdout = [(k, v)]

/-- A record that is counted is reported or printed, and not both. -/
def RecordConserved (line : Bytes) (lineno : Nat) : Prop :=
  ∀ env, (validate knobs path lineno line env).2.checked = 1 →
    (Reported (validate knobs path lineno line env).2 ∧
      (validate knobs path lineno line env).2.stdout = []) ∨
    (Printed knobs line (validate knobs path lineno line env).2 ∧
      (validate knobs path lineno line env).2.diags = [])

/-- The diagnostics about lines. -/
def lineDiags (o : Out Nat) : List Diag := o.diags.filter fun d => !d.code.isFileError

theorem lineDiags_add (o p : Out Nat) : lineDiags (o + p) = lineDiags o ++ lineDiags p :=
  List.filter_append o.diags p.diags

variable {knobs} {line : Bytes}

theorem validate_dump (hact : knobs.action = some .dump) (lineno : Nat) (env : EnvArray) :
    (validate knobs path lineno line env).2 =
      Out.hand line lineno +
        match reference knobs.native line with
        | .skipped => 0
        | .rejected code => Out.check + diag code path lineno
        | .accepted k v _ => Out.check + if v = sentinel then 0 else Out.print k v := by
  rw [validate_eq (by rw [hact]; rintro ⟨⟩), Step.prepend_snd]
  congr 1
  cases reference knobs.native line with
  | skipped => rfl
  | rejected code => rfl
  | accepted k v quoting =>
      show Out.check + (accept knobs path lineno k v quoting env).2 = _
      rw [accept, hact]
      by_cases hv : v = sentinel
      · rw [if_pos (beq_iff_eq.mpr hv)]
        simp only [if_pos hv]
      · rw [if_neg (fun e => hv (beq_iff_eq.mp e))]
        simp only [if_neg hv, if_true]

theorem recordConserved_iff (hact : knobs.action = some .dump) (lineno : Nat) :
    RecordConserved knobs path line lineno ↔ ¬ SohValue knobs.native line := by
  rw [sohValue_iff]
  constructor
  · rintro h ⟨k, quoting, href⟩
    have hnone : (validate knobs path lineno line ∅).2 = Out.hand line lineno + Out.check := by
      rw [validate_dump path hact, href]
      rfl
    rcases h ∅ (by rw [hnone]; rfl) with ⟨⟨d, hd, -⟩, -⟩ | ⟨⟨_, _, _, -, hb⟩, -⟩
    · rw [hnone] at hd
      cases hd
    · rw [hnone] at hb
      cases hb
  · intro h env hchecked
    rw [validate_dump path hact] at hchecked ⊢
    cases href : reference knobs.native line with
    | skipped =>
        rw [href] at hchecked
        cases hchecked
    | rejected code =>
        have hcode : code.isFileError = false := by
          have hrecord := reference_rejected href
          revert hrecord
          cases code <;> decide
        exact Or.inl ⟨⟨⟨code, none, path, some lineno⟩, rfl, hcode, rfl⟩, rfl⟩
    | accepted k v quoting =>
        have hv : v ≠ sentinel := by
          rintro rfl
          exact h ⟨k, quoting, href⟩
        simp only [if_neg hv]
        exact Or.inr ⟨⟨k, v, quoting, href, rfl⟩, rfl⟩

/-! ## A run -/

/-- The balance of a line. -/
theorem checked_validate (hact : knobs.action = some .dump) (lineno : Nat) (env : EnvArray) :
    (validate knobs path lineno line env).2.checked =
      (lineDiags (validate knobs path lineno line env).2).length +
        (validate knobs path lineno line env).2.stdout.length +
        if SohValue knobs.native line then 1 else 0 := by
  have hsoh := sohValue_iff knobs.native line
  rw [validate_dump path hact]
  cases href : reference knobs.native line with
  | skipped =>
      have hno : ¬ SohValue knobs.native line := by
        rw [hsoh, href]
        rintro ⟨_, _, ⟨⟩⟩
      rw [if_neg hno]
      rfl
  | rejected code =>
      have hno : ¬ SohValue knobs.native line := by
        rw [hsoh, href]
        rintro ⟨_, _, ⟨⟩⟩
      have hline : lineDiags (Out.hand line lineno + (Out.check + diag code path lineno)) =
          [⟨code, none, path, some lineno⟩] := by
        have hrecord := reference_rejected href
        revert hrecord
        cases code <;> first | exact fun _ => rfl | exact fun h => absurd h (by decide)
      simp only [hline, if_neg hno]
      rfl
  | accepted k v quoting =>
      by_cases hv : v = sentinel
      · have hyes : SohValue knobs.native line := by
          rw [hsoh, href, hv]
          exact ⟨k, quoting, rfl⟩
        simp only [if_pos hv, if_pos hyes]
        rfl
      · have hno : ¬ SohValue knobs.native line := by
          rw [hsoh, href]
          rintro ⟨k', quoting', he⟩
          exact hv (Outcome.accepted.inj he).2.1
        simp only [if_neg hv, if_neg hno]
        rfl

/-- The balance of a run: what is counted is reported, or printed, or has the
value that is taken for an error. -/
theorem checked_run (hact : knobs.action = some .dump) (lines : List (Bytes × Nat))
    (env : EnvArray) :
    let o := (Step.run (fun p => validate knobs path p.2 p.1) lines env).2
    o.checked = (lineDiags o).length + o.stdout.length +
      lines.countP fun p => decide (SohValue knobs.native p.1) := by
  induction lines generalizing env with
  | nil => rfl
  | cons p lines ih =>
      have hline := @checked_validate knobs path p.1 hact p.2 env
      have hrest := ih (validate knobs path p.2 p.1 env).1
      rw [Step.run_cons]
      simp only [Out.add_checked, lineDiags_add, Out.add_stdout, List.length_append,
        List.countP_cons, decide_eq_true_eq] at hrest ⊢
      omega

end Record

/-! ## A file -/

/-- The lines of a file that `normalize` hands to `validate`: none of a file it
rejects. -/
def validated (knobs : Knobs) (file : File) : List (Bytes × Nat) :=
  match readLines knobs file with
  | .error _ => []
  | .ok ls => Meaning.logical knobs ls

/-- Every record of a file is conserved, and the counter says so. -/
def Conserved (knobs : Knobs) (file : File) : Prop :=
  (∀ p ∈ validated knobs file, RecordConserved knobs file.path p.1 p.2) ∧
    ∀ env, (normalize knobs file env).2.handed = validated knobs file ∧
      (normalize knobs file env).2.checked =
        (lineDiags (normalize knobs file env).2).length + (normalize knobs file env).2.stdout.length

/-- The records of a file are conserved exactly when none of them has the
value that is taken for an error. -/
theorem conserved_iff {knobs : Knobs} (hact : knobs.action = some .dump) (path f : Bytes) :
    Conserved knobs (.readable path f) ↔
      ∀ p ∈ validated knobs (.readable path f), ¬ SohValue knobs.native p.1 := by
  constructor
  · rintro ⟨hrecords, -⟩ p hp
    exact (recordConserved_iff path hact p.2).mp (hrecords p hp)
  · intro h
    refine ⟨?_, ?_⟩
    · intro p hp
      exact (recordConserved_iff path hact p.2).mpr (h p hp)
    · intro env
      cases hread : readLines knobs (.readable path f) with
      | error code =>
          have hfile := readLines_code hread
          rw [validated, normalize, hread]
          refine ⟨rfl, ?_⟩
          show 0 = (List.filter _ [_]).length + 0
          rw [List.filter_cons_of_neg (by rw [hfile]; decide)]
          rfl
      | ok ls =>
          rw [validated, hread] at h
          have hrun := checked_run path hact (Meaning.logical knobs ls) env
          have hnone : (Meaning.logical knobs ls).countP
              (fun p => decide (SohValue knobs.native p.1)) = 0 := by
            rw [List.countP_eq_zero]
            intro p hp
            rw [decide_eq_true_iff]
            exact h p hp
          rw [normalize_eq path f hread, validated, hread]
          refine ⟨(isBody_validate knobs path).handed_run _ _, ?_⟩
          rw [hrun, hnone, Nat.add_zero]

/-- The reference's configuration for `dump` in native format. -/
def nativeDump : Knobs where
  native := true
  action := some .dump
  bom := .literal
  crlfStrip := false
  nulReject := true
  contAccept := false
  native_bom := fun _ => rfl

theorem conserved_iff_soh :
    Conserved nativeDump (.readable [] [65, Byte.equals, Byte.soh, Byte.nl]) ↔
      ∀ p ∈ validated nativeDump (.readable [] [65, Byte.equals, Byte.soh, Byte.nl]),
        ¬ SohValue nativeDump.native p.1 :=
  conserved_iff rfl [] _

/-- The record is counted, and that is all. -/
theorem soh_lost :
    let o := (normalize nativeDump (.readable [] [65, Byte.equals, Byte.soh, Byte.nl]) ∅).2
    o.checked = 1 ∧ o.diags = [] ∧ o.stdout = [] ∧
      ¬ Conserved nativeDump (.readable [] [65, Byte.equals, Byte.soh, Byte.nl]) := by
  refine ⟨rfl, rfl, rfl, ?_⟩
  rintro ⟨-, h⟩
  obtain ⟨-, hchecked⟩ := h ∅
  cases hchecked

end Envfile.Awk

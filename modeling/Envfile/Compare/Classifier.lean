/-
# `Envfile.Compare.Classifier` — `parse_shell` against the reference

`ClassifiedAlike line`: the C shell classifier and the reference's `validate`
give a line the same fate.  What the reference does is read off its output,
under every configuration in which it classifies: a line it does not count is
one that C skips; a code it prints is the code of the C status; a record it
dumps has the key and the value of the C slices.

Without a NUL the cascades differ in the order of two tests only, so that the
lines that are not classified alike are those of `C.KeyAndValue`.
-/
import Envfile.Awk.Classify
import Envfile.C.Records

namespace Envfile

open C (EnvfileStatus bytesAt statusName)

structure ClassifiedAlike (line : Bytes) : Prop where
  skips : ∀ (cfg : Knobs) (path : Bytes) (lineno : Nat) (env : Awk.EnvArray),
    cfg.native = false →
    ((C.envfileParseShell line).1 = .skip ↔
      (Awk.validate cfg path lineno line env).2.checked = 0)
  codes : ∀ (cfg : Knobs) (path : Bytes) (lineno : Nat) (env : Awk.EnvArray),
    cfg.native = false → cfg.action ≠ some .normalize →
    ∀ d ∈ (Awk.validate cfg path lineno line env).2.diags, d.code ≠ .unboundRef →
      (C.envfileParseShell line).1 ≠ .ok ∧ (C.envfileParseShell line).1 ≠ .skip ∧
        statusName (C.envfileParseShell line).1 = d.code
  accepts : ∀ (cfg : Knobs) (path : Bytes) (lineno : Nat) (env : Awk.EnvArray),
    cfg.native = false → cfg.action ≠ some .normalize →
    (Awk.validate cfg path lineno line env).2.checked ≠ 0 →
    (∀ d ∈ (Awk.validate cfg path lineno line env).2.diags, d.code = .unboundRef) →
    (C.envfileParseShell line).1 = .ok
  values : ∀ (cfg : Knobs) (path : Bytes) (lineno : Nat) (env : Awk.EnvArray),
    cfg.native = false → cfg.action = some .dump →
    ∀ b ∈ (Awk.validate cfg path lineno line env).2.stdout,
      (C.envfileParseShell line).1 = .ok ∧
        bytesAt line (C.envfileParseShell line).2.key (C.envfileParseShell line).2.keyLen = b.1 ∧
        bytesAt line (C.envfileParseShell line).2.value (C.envfileParseShell line).2.valueLen = b.2

/-! ## What the reference writes about a line -/

section Reference

variable {cfg : Knobs} {path : Bytes} {lineno : Nat} {env : Awk.EnvArray} {line : Bytes}

theorem awk_checked_eq_zero :
    (Awk.validate cfg path lineno line env).2.checked = 0 ↔ isSkipped line = true := by
  rw [Awk.validate]
  show (Step.prepend (Out.hand line lineno)
    (if ((trimCr line).all isBlank || [Byte.hash].isPrefixOf (trimCr line)) = true then _
      else _) env).2.checked = 0 ↔ _
  rw [Awk.skipped_eq]
  cases isSkipped line with
  | true => exact ⟨fun _ => rfl, fun _ => rfl⟩
  | false =>
      refine iff_of_false (fun h => ?_) Bool.false_ne_true
      have h : 0 + (1 + _) = 0 := h
      omega

theorem awk_validate_shell (hshell : cfg.native = false) (hact : cfg.action ≠ some .normalize) :
    (Awk.validate cfg path lineno line env).2 =
      Out.hand line lineno + (Awk.record cfg path lineno (referenceShell line) env).2 := by
  rw [Awk.validate_eq hact, hshell]
  rfl

end Reference

/-! ## Lines that mean the same to both -/

section Alike

variable {line : Bytes} (h : C.outcome false line = referenceShell line)

include h

theorem envfileParseShell_of_eq : C.envfileParseShell line = C.answer (referenceShell line) := by
  rw [← h]
  exact C.parseShell_eq line

theorem skips_of_eq {cfg : Knobs} {path : Bytes} {lineno : Nat} {env : Awk.EnvArray} :
    (C.envfileParseShell line).1 = .skip ↔ (Awk.validate cfg path lineno line env).2.checked = 0 := by
  rw [awk_checked_eq_zero, ← @reference_eq_skipped false, envfileParseShell_of_eq h]
  show _ ↔ referenceShell line = .skipped
  cases referenceShell line with
  | skipped => exact ⟨fun _ => rfl, fun _ => rfl⟩
  | rejected code =>
      refine ⟨fun he => ?_, by rintro ⟨⟩⟩
      cases code <;> cases he
  | accepted => exact ⟨by rintro ⟨⟩, by rintro ⟨⟩⟩

section Validated

variable {cfg : Knobs} {path : Bytes} {lineno : Nat} {env : Awk.EnvArray}
  (hshell : cfg.native = false) (hact : cfg.action ≠ some .normalize)

include hshell hact

theorem codes_of_eq {d : Diag} (hd : d ∈ (Awk.validate cfg path lineno line env).2.diags)
    (hcode : d.code ≠ .unboundRef) :
    (C.envfileParseShell line).1 ≠ .ok ∧ (C.envfileParseShell line).1 ≠ .skip ∧
      statusName (C.envfileParseShell line).1 = d.code := by
  rw [awk_validate_shell hshell hact] at hd
  rw [envfileParseShell_of_eq h]
  cases ho : referenceShell line with
  | skipped =>
      rw [ho] at hd
      exact absurd hd List.not_mem_nil
  | rejected code =>
      rw [ho] at hd
      obtain rfl : d = ⟨code, none, path, some lineno⟩ := List.mem_singleton.mp hd
      refine ⟨by cases code <;> rintro ⟨⟩, by cases code <;> rintro ⟨⟩, ?_⟩
      exact C.statusName_of_rejected false (h.trans ho)
  | accepted k v quoting =>
      rw [ho] at hd
      exact absurd (Awk.accept_diags k v quoting env d hd) hcode

theorem accepts_of_eq (hchecked : (Awk.validate cfg path lineno line env).2.checked ≠ 0)
    (hdiags : ∀ d ∈ (Awk.validate cfg path lineno line env).2.diags, d.code = .unboundRef) :
    (C.envfileParseShell line).1 = .ok := by
  rw [awk_validate_shell hshell hact] at hchecked hdiags
  rw [envfileParseShell_of_eq h]
  cases ho : referenceShell line with
  | skipped =>
      rw [ho] at hchecked
      exact absurd rfl hchecked
  | rejected code =>
      rw [ho] at hdiags
      obtain rfl : code = .unboundRef :=
        hdiags ⟨code, none, path, some lineno⟩ (List.mem_singleton.mpr rfl)
      cases C.statusName_of_rejected false (h.trans ho)
  | accepted => rfl

theorem values_of_eq {b : Binding} (hb : b ∈ (Awk.validate cfg path lineno line env).2.stdout)
    (hdump : cfg.action = some .dump) :
    (C.envfileParseShell line).1 = .ok ∧
      bytesAt line (C.envfileParseShell line).2.key (C.envfileParseShell line).2.keyLen = b.1 ∧
      bytesAt line (C.envfileParseShell line).2.value (C.envfileParseShell line).2.valueLen = b.2 := by
  rw [awk_validate_shell hshell hact] at hb
  have hb : b ∈ (Awk.record cfg path lineno (referenceShell line) env).2.stdout := hb
  rw [Awk.record_dump hdump] at hb
  have hb : b ∈ (referenceShell line).bindings := List.mem_of_mem_filter hb
  rw [envfileParseShell_of_eq h]
  cases ho : referenceShell line with
  | skipped =>
      rw [ho] at hb
      exact absurd hb List.not_mem_nil
  | rejected code =>
      rw [ho] at hb
      exact absurd hb List.not_mem_nil
  | accepted k v quoting =>
      rw [ho] at hb
      obtain rfl := List.mem_singleton.mp hb
      exact ⟨rfl, C.slices_of_accepted (h.trans ho)⟩

end Validated

theorem classifiedAlike_of_eq : ClassifiedAlike line where
  skips _ _ _ _ _ := skips_of_eq h
  codes _ _ _ _ hshell hact _ hd hcode := codes_of_eq h hshell hact hd hcode
  accepts _ _ _ _ hshell hact hchecked hdiags := accepts_of_eq h hshell hact hchecked hdiags
  values _ _ _ _ hshell hdump _ hb :=
    values_of_eq h hshell (by rw [hdump]; rintro ⟨⟩) hb hdump

end Alike

/-- A configuration under which the reference classifies. -/
def validateKnobs : Knobs := ⟨false, some .validate, .literal, false, true, false, nofun⟩

theorem not_classifiedAlike {line : Bytes} (h : C.KeyAndValue line) : ¬ ClassifiedAlike line := by
  intro halike
  obtain ⟨hc, hreference⟩ := C.shellOutcome_of_keyAndValue h
  have hdiag : (Awk.validate validateKnobs [] 1 line ∅).2.diags =
      [⟨.valueLeadingWhitespace, none, [], some 1⟩] := by
    rw [Awk.validate_eq (by decide)]
    show (Out.hand line 1 + (Awk.record validateKnobs [] 1 (referenceShell line) ∅).2).diags = _
    rw [hreference]
    rfl
  have hcode := (halike.codes validateKnobs [] 1 ∅ rfl (by decide) _
    (hdiag ▸ List.mem_singleton_self _) (by decide)).2.2
  rw [C.envfileParseShell, C.parseShell_eq, hc] at hcode
  cases hcode

/-- On a line without a NUL the two classifiers agree exactly when it does not
pair an invalid key with a blank in front of the value. -/
theorem classifiedAlike_iff (line : Bytes) (hnul : Byte.nul ∉ line) :
    ClassifiedAlike line ↔ ¬ C.KeyAndValue line := by
  constructor
  · intro h hkv
    exact not_classifiedAlike hkv h
  · intro hkv
    exact classifiedAlike_of_eq (C.shellOutcome_eq hnul hkv)

/-- A key that is no name, and blanks on both sides of the `=`. -/
theorem classifiedAlike_iff_blanks :
    Byte.nul ∉ ascii "0 = 1" ∧ (ClassifiedAlike (ascii "0 = 1") ↔ ¬ C.KeyAndValue (ascii "0 = 1")) :=
  ⟨by decide, classifiedAlike_iff _ (by decide)⟩

/-- `0= 1`: `KEY_INVALID` for C, `VALUE_LEADING_WHITESPACE` for the reference. -/
theorem not_classifiedAlike_zero_blank : ¬ ClassifiedAlike (ascii "0= 1") := by
  refine not_classifiedAlike ⟨by decide, by decide, ascii "0", ascii " 1", by decide, by decide,
    by decide, by decide, by decide⟩

end Envfile

/-
# `Envfile.Dispatch.Independence` — the knobs of the caller and of a config file

What is forwarded for a knob should depend on its lines in the config file and
on its variable in the environment, and on nothing else.  The readings of the
config file depend on all variables of the caller, though, and so the knobs are
independent for those files in which the readings have nothing to say that
another caller would not find (`independent_iff`).
-/
import Envfile.Dispatch.Callers

namespace Envfile.Dispatch

open Assign

/-! ## Independence -/

/-- What is forwarded for a knob is the same for all callers with the same
variable for it. -/
def Independent (path f : Bytes) : Prop :=
  ∀ (x : Knob) (environ environ' : Environ), ValidCaller environ → ValidCaller environ' →
    getenv environ x.envName = getenv environ' x.envName →
    forwardedKnob environ path f x = forwardedKnob environ' path f x

/-- The last setting of a knob in a reading. -/
def Reading.last (r : Reading) (f : Bytes) (x : Knob) : Option Bytes := assign empty (r.settings f) x

/-- No reading of the file says what another caller would not find in it. -/
structure Settled (f : Bytes) : Prop where
  valid : ∀ r : Reading, allValid (r.settings f) = true
  crlf : ∀ (r : Reading) (v : Bytes), r.last f .crlf = some v → r.strip = true ∧ v = ascii "strip"
  nul : ∀ (r : Reading) (v : Bytes), r.last f .nul = some v → Byte.nul ∈ f ∧ v = ascii "ignore"
  backslashContinuation : ∀ (r : Reading) (v : Bytes),
    r.last f .backslashContinuation = some v → r.join = true ∧ v = ascii "accept"
  bom : ∀ r : Reading, r.last f .bom = Reading.raw.last f .bom
  bomNul : Byte.nul ∈ f → Reading.raw.last f .bom = none

/-- What is forwarded for a settled file. -/
def settledKnob (f : Bytes) (x : Knob) (own : Option Bytes) : Option Bytes :=
  if x = .bom ∧ own ≠ some (ascii "strip") ∧ own ≠ some (ascii "reject") then
    (Reading.raw.last f .bom).or own
  else own

theorem Settled.mined_valid {f : Bytes} (h : Settled f) (environ : Environ) :
    allValid (mined environ f) = true := by
  rw [mined]
  split
  · rfl
  · exact h.valid _

/-- The knob depends on its variable alone. -/
theorem Settled.mined_knob {f : Bytes} (h : Settled f) (environ : Environ) (x : Knob) :
    (assign empty (mined environ f) x).or (getenv environ x.envName) =
      settledKnob f x (getenv environ x.envName) := by
  rw [mined, settledKnob]
  by_cases hr : Rejects environ f
  · rw [if_pos hr]
    split
    · rename_i hx
      obtain ⟨rfl, hstrip, hreject⟩ := hx
      -- the file is rejected for a NUL, and then it has no line for the BOM
      rcases hr with (hv | hv) | ⟨hmem, -⟩
      · exact absurd hv hstrip
      · exact absurd hv hreject
      · rw [h.bomNul hmem]
        rfl
    · rfl
  · rw [if_neg hr]
    have hlast : assign empty ((callerReading environ).settings f) x =
        (callerReading environ).last f x := rfl
    rw [hlast]
    rw [Rejects, not_or, not_or] at hr
    cases x with
    | bom => rw [if_pos ⟨rfl, hr.1.1, hr.1.2⟩, h.bom]
    | crlf =>
        rw [if_neg (fun hx => Knob.noConfusion hx.1)]
        cases hv : (callerReading environ).last f .crlf with
        | none => rfl
        | some v =>
            obtain ⟨hstrip, rfl⟩ := h.crlf _ v hv
            exact (beq_iff_eq.mp hstrip).symm
    | nul =>
        rw [if_neg (fun hx => Knob.noConfusion hx.1)]
        cases hv : (callerReading environ).last f .nul with
        | none => rfl
        | some v =>
            obtain ⟨hmem, rfl⟩ := h.nul _ v hv
            exact (not_not.mp fun hne => hr.2 ⟨hmem, hne⟩).symm
    | backslashContinuation =>
        rw [if_neg (fun hx => Knob.noConfusion hx.1)]
        cases hv : (callerReading environ).last f .backslashContinuation with
        | none => rfl
        | some v =>
            obtain ⟨hjoin, rfl⟩ := h.backslashContinuation _ v hv
            exact (beq_iff_eq.mp hjoin).symm

theorem Settled.independent {path f : Bytes} (hpath : path ≠ []) (h : Settled f) :
    Independent path f := by
  intro x environ environ' hvalid hvalid' hagree
  rw [forwardedKnob_eq hvalid hpath, forwardedKnob_eq hvalid' hpath, if_pos (h.mined_valid _),
    if_pos (h.mined_valid _), h.mined_knob, h.mined_knob, hagree]

/-! ## Callers that tell the readings apart -/

theorem validCaller_envp {s : Settings} (h : ∀ x, s x = [] ∨ x.validate (s x) = true) :
    ValidCaller (envp s) := by
  intro x v hv
  rw [getenv_envp, forwarded] at hv
  split at hv
  · exact absurd hv.symm (Option.some_ne_none _)
  · obtain rfl := Option.some.inj hv
    exact (h x).resolve_left ‹_›

/-- A caller that asks for a reading. -/
def probe (r : Reading) (bom nul : Bytes) : Settings
  | .bom => bom
  | .crlf => if r.strip then ascii "strip" else []
  | .nul => nul
  | .backslashContinuation => if r.join then ascii "accept" else []

theorem validCaller_probe (r : Reading) {bom nul : Bytes}
    (hbom : bom = [] ∨ validateBom bom = true) (hnul : nul = [] ∨ validateNul nul = true) :
    ValidCaller (envp (probe r bom nul)) := by
  have hstrip : ∀ b : Bool, (if b then ascii "strip" else []) = [] ∨
      validateCrlf (if b then ascii "strip" else []) = true := by decide
  have haccept : ∀ b : Bool, (if b then ascii "accept" else []) = [] ∨
      validateBackslashContinuation (if b then ascii "accept" else []) = true := by decide
  refine validCaller_envp ?_
  rintro (_ | _ | _ | _)
  · exact hbom
  · exact hstrip r.strip
  · exact hnul
  · exact haccept r.join

theorem callerReading_probe (r : Reading) (bom nul : Bytes) :
    callerReading (envp (probe r bom nul)) = r := by
  rw [callerReading, getenv_envp, getenv_envp]
  obtain ⟨_ | _, _ | _⟩ := r <;> rfl

theorem mined_probe (r : Reading) {nul f : Bytes} (h : Byte.nul ∈ f → nul = ascii "ignore") :
    mined (envp (probe r [] nul)) f = r.settings f := by
  have hr : ¬ Rejects (envp (probe r [] nul)) f := by
    rw [Rejects, getenv_envp, getenv_envp]
    rintro ((hv | hv) | ⟨hmem, hv⟩)
    · exact absurd hv.symm (Option.some_ne_none _)
    · exact absurd hv.symm (Option.some_ne_none _)
    · obtain rfl := h hmem
      exact hv rfl
  rw [mined, if_neg hr, callerReading_probe]

theorem mined_probe_strip (r : Reading) (nul f : Bytes) :
    mined (envp (probe r (ascii "strip") nul)) f = [] := by
  have hr : Rejects (envp (probe r (ascii "strip") nul)) f := by
    left
    left
    rw [getenv_envp]
    rfl
  rw [mined, if_pos hr]

section Tells

variable {path f : Bytes} (hpath : path ≠ []) (h : Independent path f)

include hpath h

/-- A caller that has the file read gets what one that has it rejected gets. -/
theorem Independent.settings (r : Reading) {nul : Bytes} (hnul : nul = [] ∨ validateNul nul = true)
    (hread : Byte.nul ∈ f → nul = ascii "ignore") :
    allValid (r.settings f) = true ∧ ∀ x : Knob, x ≠ .bom →
      (r.last f x).or (forwarded (probe r [] nul) x) = forwarded (probe r [] nul) x := by
  have hvalid : ValidCaller (envp (probe r [] nul)) := validCaller_probe r (Or.inl rfl) hnul
  have hvalid' : ValidCaller (envp (probe r (ascii "strip") nul)) :=
    validCaller_probe r (Or.inr (by decide)) hnul
  have hsame : ∀ x : Knob, x ≠ .bom →
      (if allValid (r.settings f) then
        some ((r.last f x).or (forwarded (probe r [] nul) x)) else none) =
      some (forwarded (probe r [] nul) x) := by
    intro x hx
    have hprobe : probe r (ascii "strip") nul x = probe r [] nul x := by
      cases x with
      | bom => exact absurd rfl hx
      | crlf => rfl
      | nul => rfl
      | backslashContinuation => rfl
    have hown : forwarded (probe r (ascii "strip") nul) x = forwarded (probe r [] nul) x := by
      rw [forwarded, forwarded, hprobe]
    have hagree := h x _ _ hvalid hvalid' (by rw [getenv_envp, getenv_envp, hown])
    rw [forwardedKnob_eq hvalid hpath, forwardedKnob_eq hvalid' hpath, mined_probe r hread,
      mined_probe_strip, getenv_envp, getenv_envp, hown] at hagree
    exact hagree
  have hall : allValid (r.settings f) = true := by
    by_contra hno
    have hcrlf := hsame .crlf Knob.noConfusion
    rw [if_neg hno] at hcrlf
    exact absurd hcrlf.symm (Option.some_ne_none _)
  refine ⟨hall, fun x hx => ?_⟩
  have hx := hsame x hx
  rw [if_pos hall] at hx
  exact Option.some.inj hx

/-- All readings have the same setting of the BOM. -/
theorem Independent.bom (r : Reading) : r.last f .bom = Reading.raw.last f .bom := by
  have hnul : validateNul (ascii "ignore") = true := by decide
  have hvalid : ∀ r, ValidCaller (envp (probe r [] (ascii "ignore"))) := fun r =>
    validCaller_probe r (Or.inl rfl) (Or.inr hnul)
  have hlast : ∀ r, forwardedKnob (envp (probe r [] (ascii "ignore"))) path f .bom =
      some (r.last f .bom) := by
    intro r
    rw [forwardedKnob_eq (hvalid r) hpath, mined_probe r fun _ => rfl,
      if_pos (h.settings hpath r (Or.inr hnul) fun _ => rfl).1, getenv_envp]
    exact congrArg some (Option.or_none (o := r.last f .bom))
  have hagree := h .bom _ _ (hvalid r) (hvalid .raw) (by rw [getenv_envp, getenv_envp]; rfl)
  rw [hlast, hlast] at hagree
  exact Option.some.inj hagree

theorem Independent.bomNul (hmem : Byte.nul ∈ f) : Reading.raw.last f .bom = none := by
  have hnul : validateNul (ascii "ignore") = true := by decide
  have hvalid := validCaller_probe .raw (Or.inl rfl) (Or.inr hnul)
  have hvalid' : ValidCaller (envp (probe .raw [] [])) :=
    validCaller_probe .raw (Or.inl rfl) (Or.inl rfl)
  have hrejects : Rejects (envp (probe .raw [] [])) f := by
    refine Or.inr ⟨hmem, ?_⟩
    rw [getenv_envp]
    exact Option.some_ne_none _ ∘ Eq.symm
  have hagree := h .bom _ _ hvalid hvalid' (by rw [getenv_envp, getenv_envp]; rfl)
  rw [forwardedKnob_eq hvalid hpath, forwardedKnob_eq hvalid' hpath, mined_probe .raw fun _ => rfl,
    if_pos (h.settings hpath .raw (Or.inr hnul) fun _ => rfl).1, mined, if_pos hrejects,
    getenv_envp, getenv_envp] at hagree
  exact (Option.or_none (o := Reading.raw.last f .bom)).symm.trans (Option.some.inj hagree)

theorem Independent.settled : Settled f := by
  have hignore : validateNul (ascii "ignore") = true := by decide
  have hread := fun r => h.settings hpath r (Or.inr hignore) fun _ => rfl
  refine ⟨fun r => (hread r).1, ?_, ?_, ?_, h.bom hpath, h.bomNul hpath⟩
  · intro r v hv
    have hown := (hread r).2 .crlf Knob.noConfusion
    rw [hv, Option.some_or] at hown
    cases hstrip : r.strip with
    | false =>
        rw [forwarded, probe, hstrip] at hown
        exact absurd hown (Option.some_ne_none _)
    | true =>
        rw [forwarded, probe, hstrip] at hown
        exact ⟨rfl, Option.some.inj hown⟩
  · intro r v hv
    constructor
    · by_contra hno
      have hown := (h.settings hpath r (Or.inl rfl) fun hmem => absurd hmem hno).2 .nul
        Knob.noConfusion
      rw [hv] at hown
      exact absurd hown (Option.some_ne_none _)
    · have hown := (hread r).2 .nul Knob.noConfusion
      rw [hv, Option.some_or] at hown
      exact Option.some.inj hown
  · intro r v hv
    have hown := (hread r).2 .backslashContinuation Knob.noConfusion
    rw [hv, Option.some_or] at hown
    cases hjoin : r.join with
    | false =>
        rw [forwarded, probe, hjoin] at hown
        exact absurd hown (Option.some_ne_none _)
    | true =>
        rw [forwarded, probe, hjoin] at hown
        exact ⟨rfl, Option.some.inj hown⟩

end Tells

/-- The knobs are independent for the settled files. -/
theorem independent_iff {path : Bytes} (hpath : path ≠ []) (f : Bytes) :
    Independent path f ↔ Settled f :=
  ⟨fun h => h.settled hpath, fun h => h.independent hpath⟩

/-- A BOM in a line that all readings have as it is. -/
theorem independent_iff_literal : Independent (ascii "c") (ascii "BOM=literal\n") := by
  have hsettings : ∀ r : Reading, r.settings (ascii "BOM=literal\n") =
      [(.bom, ascii "literal")] := by
    rintro ⟨_ | _, _ | _⟩ <;> decide +kernel
  have hlast : ∀ r : Reading, ∀ x : Knob, x ≠ .bom → r.last (ascii "BOM=literal\n") x = none := by
    intro r x hx
    rw [Reading.last, hsettings]
    exact assign_of_not_mem (fun hmem => hx (List.mem_singleton.mp hmem)) empty
  refine (independent_iff (by decide) _).mpr ⟨?_, ?_, ?_, ?_, ?_, ?_⟩
  · intro r
    rw [hsettings]
    decide
  · intro r v hv
    exact absurd (hv.symm.trans (hlast r .crlf Knob.noConfusion)) (Option.some_ne_none v)
  · intro r v hv
    exact absurd (hv.symm.trans (hlast r .nul Knob.noConfusion)) (Option.some_ne_none v)
  · intro r v hv
    exact absurd (hv.symm.trans (hlast r .backslashContinuation Knob.noConfusion))
      (Option.some_ne_none v)
  · intro r
    rw [Reading.last, Reading.last, hsettings, hsettings]
  · intro hmem
    exact absurd hmem (by decide)

/-- A config file with one valid line: for the caller with `ENVFILE_BOM=strip`
nothing is forwarded. -/
theorem not_independent_crlf :
    Reading.raw.settings (ascii "CRLF=strip\n") = [(.crlf, ascii "strip")] ∧
      allValid (Reading.raw.settings (ascii "CRLF=strip\n")) = true ∧
      ¬ Independent (ascii "c") (ascii "CRLF=strip\n") := by
  refine ⟨by decide +kernel, by decide +kernel, fun h => ?_⟩
  have hvalid : ValidCaller [] := fun x v hv => absurd hv.symm (Option.some_ne_none v)
  have hvalid' : ValidCaller [ascii "ENVFILE_BOM=strip"] := by
    intro x v hv
    cases x with
    | bom =>
        obtain rfl : ascii "strip" = v := Option.some.inj hv
        decide
    | crlf => exact absurd hv.symm (Option.some_ne_none v)
    | nul => exact absurd hv.symm (Option.some_ne_none v)
    | backslashContinuation => exact absurd hv.symm (Option.some_ne_none v)
  have hagree := h .crlf [] [ascii "ENVFILE_BOM=strip"] hvalid hvalid' (by decide)
  have hforwarded : forwardedKnob [] (ascii "c") (ascii "CRLF=strip\n") .crlf =
      some (some (ascii "strip")) := by decide +kernel
  have hdropped : forwardedKnob [ascii "ENVFILE_BOM=strip"] (ascii "c") (ascii "CRLF=strip\n")
      .crlf = some none := by decide +kernel
  rw [hforwarded, hdropped] at hagree
  exact absurd (Option.some.inj hagree) (Option.some_ne_none _)

end Envfile.Dispatch

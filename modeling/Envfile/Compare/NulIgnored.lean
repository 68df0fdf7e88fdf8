/-
# `Envfile.Compare.NulIgnored` — NUL bytes that the NUL pass lets through

With `ENVFILE_NUL=ignore` the file passes keep every NUL, in the C front end
and in the reference, and both hand the same lines to their record
classifiers.  The classifiers differ: `backend.c` rejects every line with a NUL
that it does not skip, and the reference has no such test.

So the NULs of a file are passed through exactly when no record with a NUL is
one that the reference accepts (`nul_passed_iff`).
-/
import Envfile.Compare.Files

namespace Envfile

/-! ## Records with a NUL -/

/-- A value as shell format has it: unquoted, or in quotes. -/
def WellQuoted (raw : Bytes) : Prop :=
  raw.any isBadUnquoted = false ∨
    ∃ q inner, (q = Byte.dquote ∨ q = Byte.squote) ∧ raw = q :: (inner ++ [q]) ∧ q ∉ inner

theorem wellQuoted_iff {raw : Bytes} :
    WellQuoted raw ↔ ∃ v quoting, unquote raw = .ok (v, quoting) := by
  constructor
  · rintro (hgood | ⟨q, inner, hq, rfl, hi⟩)
    · have hquote : ∀ q, isBadUnquoted q = true → raw.head? ≠ some q := by
        intro q hbad hhead
        exact List.any_eq_false.mp hgood q (List.mem_of_mem_head? hhead) hbad
      refine ⟨raw, .plain, ?_⟩
      rw [unquote_plain (hquote _ rfl) (hquote _ rfl), hgood, if_neg Bool.false_ne_true]
    · exact ⟨inner, .ofQuote q, by rw [unquote_quoted hq hi, if_pos rfl]⟩
  · rintro ⟨v, quoting, h⟩
    rcases unquote_ok h with ⟨-, -, hgood⟩ | ⟨q, hq, -, hraw, hi⟩
    · exact Or.inl hgood
    · exact Or.inr ⟨q, v, hq, hraw, hi⟩

/-- A well-formed assignment with a NUL in it. -/
def NulRecord (native : Bool) (line : Bytes) : Prop :=
  Byte.nul ∈ line ∧
    if native then
      ∃ k v, k ≠ [] ∧ k.head? ≠ some Byte.hash ∧ Byte.equals ∉ k ∧ line = k ++ Byte.equals :: v
    else ∃ k raw, isName k = true ∧ line = k ++ Byte.equals :: raw ∧ WellQuoted raw

theorem nulRecord_iff {native : Bool} {line : Bytes} :
    NulRecord native line ↔
      Byte.nul ∈ line ∧ ∃ k v quoting, reference native line = .accepted k v quoting := by
  refine and_congr_right ?_
  intro _
  cases native with
  | true =>
      show (∃ k v, _) ↔ ∃ k v quoting, referenceNative line = _
      constructor
      · rintro ⟨k, v, hne, hhash, hk, hline⟩
        exact ⟨k, v, .plain, referenceNative_accepted.mpr ⟨hne, hhash, hk, hline, rfl⟩⟩
      · rintro ⟨k, v, quoting, h⟩
        obtain ⟨hne, hhash, hk, hline, -⟩ := referenceNative_accepted.mp h
        exact ⟨k, v, hne, hhash, hk, hline⟩
  | false =>
      show (∃ k raw, _) ↔ ∃ k v quoting, referenceShell line = _
      constructor
      · rintro ⟨k, raw, hname, hline, hraw⟩
        obtain ⟨v, quoting, hu⟩ := wellQuoted_iff.mp hraw
        exact ⟨k, v, quoting, referenceShell_accepted.mpr ⟨hname, raw, hline, hu⟩⟩
      · rintro ⟨k, v, quoting, h⟩
        obtain ⟨hname, raw, hline, hu⟩ := referenceShell_accepted.mp h
        exact ⟨k, raw, hname, hline, wellQuoted_iff.mpr ⟨v, quoting, hu⟩⟩

/-! ## Accepting a line -/

theorem ne_normalize {action : Action} (h : action = .validate ∨ action = .dump) :
    action ≠ .normalize := by
  rintro rfl
  rcases h with ⟨⟨⟩⟩ | ⟨⟨⟩⟩

/-- A line is counted, and nothing is reported of it. -/
structure Out.Accepts {ι : Type} [One ι] (o : Out ι) : Prop where
  checked : o.checked = 1
  diags : o.diags = []

section Accepts

variable {path line : Bytes} {lineNo : Nat}

theorem accepts_validate_iff {knobs : Knobs} {action : Action}
    (haction : knobs.action = some action) (hact : action = .validate ∨ action = .dump)
    {env : Awk.EnvArray} :
    (Awk.validate knobs path lineNo line env).2.Accepts ↔
      ∃ k v quoting, reference knobs.native line = .accepted k v quoting := by
  have hother : knobs.action ≠ some .normalize := by
    rw [haction]
    intro h
    exact ne_normalize hact (Option.some.inj h)
  rw [Awk.validate_eq hother]
  cases href : reference knobs.native line with
  | skipped =>
      refine iff_of_false ?_ (by rintro ⟨_, _, _, ⟨⟩⟩)
      rintro ⟨hchecked, -⟩
      cases hchecked
  | rejected code =>
      refine iff_of_false ?_ (by rintro ⟨_, _, _, ⟨⟩⟩)
      rintro ⟨-, hdiags⟩
      cases hdiags
  | accepted k v quoting =>
      refine iff_of_true ?_ ⟨k, v, quoting, rfl⟩
      have haccept : (Awk.accept knobs path lineNo k v quoting env).2.checked = 0 ∧
          (Awk.accept knobs path lineNo k v quoting env).2.diags = [] := by
        rw [Awk.accept, haction]
        split
        · exact ⟨rfl, rfl⟩
        rcases hact with rfl | rfl
        · exact ⟨rfl, rfl⟩
        · exact ⟨rfl, rfl⟩
      refine ⟨?_, ?_⟩
      · show 0 + (1 + (Awk.accept knobs path lineNo k v quoting env).2.checked) = 1
        rw [haccept.1]
      · show [] ++ ([] ++ (Awk.accept knobs path lineNo k v quoting env).2.diags) = []
        rw [haccept.2]
        rfl

theorem not_accepts_body {cfg : C.Config} (hact : cfg.action ≠ .normalize)
    (hnul : Byte.nul ∈ line) {env : C.EnvTable} :
    ¬ (C.body .c cfg path line lineNo env).2.Accepts := by
  rw [C.body_eq cfg hact]
  rintro ⟨hchecked, hdiags⟩
  cases ho : C.outcome cfg.native line with
  | skipped =>
      rw [ho] at hchecked
      cases hchecked
  | rejected code =>
      rw [ho] at hdiags
      cases hdiags
  | accepted k v quoting =>
      obtain ⟨-, hfree, -⟩ := C.outcome_accepted ho
      exact hfree hnul

end Accepts

/-! ## A file -/

section File

variable (cfg : C.Config) (path f : Bytes)

/-- Both hand the same lines on, and what the reference accepts of those with a
NUL, C accepts and prints alike. -/
def NulPassed : Prop :=
  ∀ cenv aenv,
    (C.processFile .c cfg path (C.Stream.ofBytes f) cenv).2.handed =
        (Awk.normalize cfg.knobs (.readable path f) aenv).2.handed ∧
      ∀ p ∈ (Awk.normalize cfg.knobs (.readable path f) aenv).2.handed, Byte.nul ∈ p.1 →
        (Awk.validate cfg.knobs path p.2 p.1 aenv).2.Accepts →
          (C.body .c cfg path p.1 p.2 cenv).2.Accepts ∧
            (C.body .c cfg path p.1 p.2 cenv).2.stdout =
              (Awk.validate cfg.knobs path p.2 p.1 aenv).2.stdout

variable {cfg} {f}

theorem handed_off (hnul : cfg.nulReject = false) (hbom : cfg.bom = .literal)
    (hcrlf : cfg.stripCr = false) (hcont : cfg.shellCont = false) (hfit : C.LinesFit f)
    (backend : C.Backend) (cenv : C.EnvTable) (aenv : Awk.EnvArray) :
    (C.processFile backend cfg path (C.Stream.ofBytes f) cenv).2.handed =
        Lines.number 0 (Lines.lines Byte.nl f) ∧
      (Awk.normalize cfg.knobs (.readable path f) aenv).2.handed =
        Lines.number 0 (Lines.lines Byte.nl f) := by
  have hpass := C.prePasses_literal hbom (C.nul_kept hnul f)
  have hphysical := C.physicalLines_off hcrlf f
  rcases outputs path backend cenv aenv (sameSettings_knobs cfg) hfit
    (fun data _ => C.joinedFit_off hcont data) with
    ⟨code, herror, -⟩ | ⟨data, ls, hdata, hls, hc, ha⟩
  · rw [hpass] at herror
    cases herror
  · obtain rfl := Except.ok.inj (hpass.symm.trans hdata)
    obtain rfl : ls = C.physicalLines cfg f := by
      rcases hls with hls | ⟨hstrip, -⟩
      · exact hls
      · rw [hbom] at hstrip
        cases hstrip
    have hlines : Meaning.logical cfg.knobs (Lines.lines Byte.nl f) =
        Lines.number 0 (Lines.lines Byte.nl f) := by
      show (if cfg.shellCont then _ else _) = _
      rw [hcont, if_neg Bool.false_ne_true]
    rw [hc, ha, (C.isBody_body backend cfg path).handed_run,
      (Awk.isBody_validate cfg.knobs path).handed_run, C.handedLines_off hcont, hphysical, hlines]
    exact ⟨rfl, rfl⟩

/-- NULs are passed through exactly where no well-formed record has one. -/
theorem nul_passed_iff (hact : cfg.action = .validate ∨ cfg.action = .dump)
    (hnul : cfg.nulReject = false) (hbom : cfg.bom = .literal) (hcrlf : cfg.stripCr = false)
    (hcont : cfg.shellCont = false) (hfit : C.LinesFit f) :
    NulPassed cfg path f ↔ ∀ l ∈ Lines.lines Byte.nl f, ¬ NulRecord cfg.native l := by
  have hhanded := handed_off path hnul hbom hcrlf hcont hfit .c
  constructor
  · intro hpassed l hl hrecord
    rw [nulRecord_iff] at hrecord
    obtain ⟨hmem, haccepted⟩ := hrecord
    obtain ⟨-, hlines⟩ := hpassed .zero ∅
    rw [(hhanded .zero ∅).2] at hlines
    rw [← Lines.number_fst (Lines.lines Byte.nl f) 0] at hl
    obtain ⟨p, hp, rfl⟩ := List.mem_map.mp hl
    obtain ⟨haccepts, -⟩ := hlines p hp hmem ((accepts_validate_iff rfl hact).mpr haccepted)
    exact not_accepts_body (ne_normalize hact) hmem haccepts
  · intro hno cenv aenv
    obtain ⟨hc, ha⟩ := hhanded cenv aenv
    refine ⟨hc.trans ha.symm, ?_⟩
    intro p hp hmem haccepts
    rw [ha] at hp
    exfalso
    exact hno p.1 (Lines.mem_number hp)
      (nulRecord_iff.mpr ⟨hmem, (accepts_validate_iff rfl hact).mp haccepts⟩)

/-- `dump` of native records with NUL bytes ignored. -/
def C.Config.nulIgnored : C.Config :=
  { C.Config.default with
    native := true
    action := .dump
    bom := .literal
    nulReject := false
    native_bom := fun _ => rfl
    native_cont := fun _ => rfl }

theorem nul_passed_iff_nulValue :
    NulPassed .nulIgnored [] [65, Byte.equals, Byte.nul, Byte.nl] ↔
      ∀ l ∈ Lines.lines Byte.nl [65, Byte.equals, Byte.nul, Byte.nl],
        ¬ NulRecord C.Config.nulIgnored.native l :=
  nul_passed_iff [] (Or.inr rfl) rfl rfl rfl rfl (by decide)

/-- The reference prints the record, and C reports an invalid character. -/
theorem nul_rejected :
    let f := [65, Byte.equals, Byte.nul, Byte.nl]
    let c := (C.processFile .c .nulIgnored [] (C.Stream.ofBytes f) .zero).2
    let a := (Awk.normalize C.Config.nulIgnored.knobs (.readable [] f) ∅).2
    c.codes = [.valueInvalidChar] ∧ c.bytes = [] ∧ a.codes = [] ∧ a.bytes = f ∧
      ¬ NulPassed .nulIgnored [] f := by
  intro f c a
  refine ⟨by decide, by decide, by decide, by decide, ?_⟩
  intro hpassed
  have hhanded : (Awk.normalize C.Config.nulIgnored.knobs (.readable [] f) ∅).2.handed =
      [([65, Byte.equals, Byte.nul], 1)] := by decide
  obtain ⟨-, hlines⟩ := hpassed .zero ∅
  rw [hhanded] at hlines
  obtain ⟨haccepts, -⟩ := hlines _ List.mem_cons_self (by decide)
    ((accepts_validate_iff rfl (Or.inr rfl)).mpr ⟨[65], [Byte.nul], .plain, by decide⟩)
  exact not_accepts_body (by decide) (by decide) haccepts

end File

end Envfile

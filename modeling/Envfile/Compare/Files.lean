/-
# `Envfile.Compare.Files` — `process_file` against `normalize`

What the C front end and the reference do to a file before they look at a
record: the NUL test, the BOM, the CRs, the lines, the join.  Both hand a
sequence of lines to their record classifier (`Out.handed`), or reject the
file.

Without continuation the two sequences are equal but for one blank line:
behind a stripped BOM at the end of the file the reference has an empty line,
and the C loop has none.  With continuation the C loop keeps a line that goes
on until the next one arrives; when the file ends in its newline none does,
and the line is lost.  `handed_agree_iff` has both directions.
-/
import Envfile.Awk.Files
import Envfile.C.Files

namespace Envfile

/-- The C front end and a port with the other configuration are asked for the
same. -/
structure SameSettings (cfg : C.Config) (knobs : Knobs) : Prop where
  native : knobs.native = cfg.native
  action : knobs.action = some cfg.action
  bom : knobs.bom = cfg.bom
  stripCr : knobs.crlfStrip = cfg.stripCr
  nulReject : knobs.nulReject = cfg.nulReject
  shellCont : knobs.contAccept = cfg.shellCont

/-- The configuration of another port that asks for the same. -/
def C.Config.knobs (cfg : C.Config) : Knobs where
  native := cfg.native
  action := some cfg.action
  bom := cfg.bom
  crlfStrip := cfg.stripCr
  nulReject := cfg.nulReject
  contAccept := cfg.shellCont
  native_bom := cfg.native_bom

theorem sameSettings_knobs (cfg : C.Config) : SameSettings cfg cfg.knobs :=
  ⟨rfl, rfl, rfl, rfl, rfl, rfl⟩

/-- The lines that are handed on and are not blank. -/
def Out.nonBlank {ι : Type} (o : Out ι) : List (Bytes × Nat) :=
  o.handed.filter fun p => !isBlankLine p.1

section Files

variable {cfg : C.Config} {knobs : Knobs} (path f : Bytes)

/-! ## The passes -/

theorem stripCrlf_lines (hsame : SameSettings cfg knobs) (data : Bytes) :
    (if knobs.crlfStrip then Awk.stripCrlf (Lines.lines Byte.nl data)
      else Lines.lines Byte.nl data) = C.physicalLines cfg data := by
  have hmap : ∀ ls : List Bytes, ls.map (C.strip false) = ls := fun ls => List.map_id ls
  rw [C.physicalLines, C.stripFlag, hsame.stripCr, Awk.stripCrlf_eq, C.allRecordsHaveTrailingCr_eq]
  cases cfg.stripCr with
  | false => rw [if_neg Bool.false_ne_true, Bool.false_and, hmap]
  | true =>
      rw [if_pos rfl, Bool.true_and]
      cases data with
      | nil => rfl
      | cons c s =>
          cases (Lines.lines Byte.nl (c :: s)).all fun l => l.getLast? == some Byte.cr with
          | false => exact (hmap _).symm
          | true => rfl

/-- The passes reject the same files with the same code, and leave the same
lines. -/
theorem readLines_prePasses (hsame : SameSettings cfg knobs) :
    match C.prePasses cfg (C.Stream.ofBytes f) with
    | .error code => Awk.readLines knobs (.readable path f) = .error code
    | .ok data => ∃ ls, Awk.readLines knobs (.readable path f) = .ok ls ∧
        (ls = C.physicalLines cfg data ∨ cfg.bom = .strip ∧ data = [] ∧ ls = [[]]) := by
  have hlines : ∀ data : Bytes, (Except.ok (Lines.lines Byte.nl data) : Except Code _).map
      (fun lines => if knobs.crlfStrip then Awk.stripCrlf lines else lines) =
        .ok (C.physicalLines cfg data) := by
    intro data
    rw [← stripCrlf_lines hsame data]
    rfl
  rw [C.prePasses_eq, Awk.readLines_eq, Awk.bomPass_lines, hsame.nulReject, hsame.bom]
  by_cases hnul : cfg.nulReject = true ∧ Byte.nul ∈ f
  · rw [if_pos hnul, if_pos hnul]
  rw [if_neg hnul, if_neg hnul]
  cases bomBytes.isPrefixOf f with
  | false => exact ⟨_, hlines f, Or.inl rfl⟩
  | true =>
      cases hbom : cfg.bom with
      | literal => exact ⟨_, hlines f, Or.inl rfl⟩
      | reject => rfl
      | strip =>
          by_cases hnil : f.drop 3 = []
          · refine ⟨[[]], ?_, Or.inr ⟨rfl, hnil, rfl⟩⟩
            simp only [if_true, Meaning.behindBom, if_pos hnil]
            cases knobs.crlfStrip <;> rfl
          · refine ⟨_, ?_, Or.inl rfl⟩
            simp only [if_true, Meaning.behindBom, if_neg hnil]
            exact hlines _

/-! ## Both, on one file -/

section Both

variable (backend : C.Backend) (cenv : C.EnvTable) (aenv : Awk.EnvArray)

/-- The two outputs: the same rejection, or the runs over the lines of each. -/
theorem outputs (hsame : SameSettings cfg knobs) {f : Bytes} (hfit : C.LinesFit f)
    (hjoined : ∀ data, C.prePasses cfg (C.Stream.ofBytes f) = .ok data → C.JoinedFit cfg data) :
    (∃ code, C.prePasses cfg (C.Stream.ofBytes f) = .error code ∧
      (C.processFile backend cfg path (C.Stream.ofBytes f) cenv).2 =
        Out.diag ⟨code, none, path, none⟩ ∧
      (Awk.normalize knobs (.readable path f) aenv).2 = Out.diag ⟨code, none, path, none⟩) ∨
    ∃ data ls, C.prePasses cfg (C.Stream.ofBytes f) = .ok data ∧
      (ls = C.physicalLines cfg data ∨ cfg.bom = .strip ∧ data = [] ∧ ls = [[]]) ∧
      (C.processFile backend cfg path (C.Stream.ofBytes f) cenv).2 =
        (Step.run (fun p => C.body backend cfg path p.1 p.2) (C.handedLines cfg data) cenv).2 ∧
      (Awk.normalize knobs (.readable path f) aenv).2 =
        (Step.run (fun p => Awk.validate knobs path p.2 p.1)
          (Meaning.logical knobs ls) aenv).2 := by
  have hc := congrFun (C.processFile_eq backend cfg path hfit hjoined) cenv
  have hread := readLines_prePasses path f hsame
  cases hpass : C.prePasses cfg (C.Stream.ofBytes f) with
  | error code =>
      rw [hpass] at hc hread
      refine Or.inl ⟨code, rfl, congrArg Prod.snd hc, ?_⟩
      rw [Awk.normalize, hread]
      rfl
  | ok data =>
      rw [hpass] at hc hread
      obtain ⟨ls, hls, heq⟩ := hread
      refine Or.inr ⟨data, ls, rfl, heq, congrArg Prod.snd hc, ?_⟩
      rw [Awk.normalize_eq path f hls]

/-- Without continuation, the same lines are handed on, or the file is rejected
with the same code. -/
theorem handed_agree (hsame : SameSettings cfg knobs) (hnul : cfg.nulReject = true)
    (hcont : cfg.shellCont = false) {f : Bytes} (hfit : C.LinesFit f) :
    let c := (C.processFile backend cfg path (C.Stream.ofBytes f) cenv).2
    let a := (Awk.normalize knobs (.readable path f) aenv).2
    Code.lineTooLong ∉ c.codes ∧
    ((∃ code : Code, code.isFileError = true ∧ (code = .fileNul ↔ Byte.nul ∈ f) ∧
        c = Out.diag ⟨code, none, path, none⟩ ∧ a = Out.diag ⟨code, none, path, none⟩) ∨
      (Byte.nul ∉ f ∧ (∀ code ∈ c.codes, code.isFileError = false) ∧
        (∀ code ∈ a.codes, code.isFileError = false) ∧ c.nonBlank = a.nonBlank)) := by
  have hrecord : ∀ code : Code, code.isRecordCode = true →
      code ≠ .lineTooLong ∧ code.isFileError = false := by
    intro code h
    cases code <;> first | exact ⟨by decide, rfl⟩ | exact absurd h (by decide)
  rcases outputs path backend cenv aenv hsame hfit fun data _ => C.joinedFit_off hcont data with
    ⟨code, hpass, hc, ha⟩ | ⟨data, ls, hpass, hls, hc, ha⟩
  · -- both reject the file
    simp only [hc, ha]
    have hfile : code.isFileError = true ∧ (code = .fileNul ↔ Byte.nul ∈ f) := by
      rcases C.prePasses_error hpass with ⟨rfl, hmem⟩ | ⟨rfl, hmem⟩
      · exact ⟨rfl, iff_of_true rfl hmem⟩
      · exact ⟨rfl, iff_of_false (by decide) (fun h => hmem ⟨hnul, h⟩)⟩
    refine ⟨?_, Or.inl ⟨code, hfile.1, hfile.2, rfl, rfl⟩⟩
    rw [Out.codes_diag, List.mem_singleton]
    rintro rfl
    cases hfile.1
  · -- both hand lines on
    have hcbody := C.isBody_body backend cfg path
    have habody := Awk.isBody_validate knobs path
    simp only [hc, ha]
    refine ⟨fun h => (hrecord _ (hcbody.codes_run _ _ _ h)).1 rfl, Or.inr ⟨?_, ?_, ?_, ?_⟩⟩
    · exact C.nul_not_mem_of_prePasses hnul hpass
    · intro code h
      exact (hrecord _ (hcbody.codes_run _ _ _ h)).2
    · intro code h
      exact (hrecord _ (habody.codes_run _ _ _ h)).2
    · rw [Out.nonBlank, Out.nonBlank, hcbody.handed_run, habody.handed_run,
        C.handedLines_off hcont, Meaning.logical, hsame.shellCont, hcont]
      rcases hls with rfl | ⟨-, rfl, rfl⟩
      · rfl
      · rfl

/-- A BOM, a CR, a line without a key, an empty line, and one that is not closed. -/
theorem handed_agree_bom :
    let f := bomBytes ++ ascii "A=1\r\n=x\n\n# c\nB=2"
    let c := (C.processFile .c .default [] (C.Stream.ofBytes f) .zero).2
    let a := (Awk.normalize C.Config.default.knobs (.readable [] f) ∅).2
    Code.lineTooLong ∉ c.codes ∧
    ((∃ code : Code, code.isFileError = true ∧ (code = .fileNul ↔ Byte.nul ∈ f) ∧
        c = Out.diag ⟨code, none, [], none⟩ ∧ a = Out.diag ⟨code, none, [], none⟩) ∨
      (Byte.nul ∉ f ∧ (∀ code ∈ c.codes, code.isFileError = false) ∧
        (∀ code ∈ a.codes, code.isFileError = false) ∧ c.nonBlank = a.nonBlank)) :=
  handed_agree [] .c .zero ∅ (sameSettings_knobs _) rfl rfl (by decide)

/-! ## The join -/

/-- The file ends in a newline, and the line this newline closes goes on. -/
def EndsInContinuation (f : Bytes) : Prop :=
  f.getLast? = some Byte.nl ∧ (Lines.lines Byte.nl f).getLast?.any continues = true

theorem endsInContinuation_iff (f : Bytes) :
    EndsInContinuation f ↔
      (decide (Lines.rest Byte.nl f = []) && pending [] (Lines.lines Byte.nl f)) = true := by
  rw [EndsInContinuation, pending_eq rfl, Bool.and_eq_true, decide_eq_true_iff,
    Lines.rest_eq_nil_iff]
  constructor
  · rintro ⟨hlast, hcont⟩
    obtain ⟨t, ht⟩ := List.getLast?_eq_some_iff.mp hlast
    exact ⟨Or.inr ⟨t, ht⟩, hcont⟩
  · rintro ⟨rfl | ⟨t, rfl⟩, hcont⟩
    · cases hcont
    · exact ⟨List.getLast?_concat, hcont⟩

theorem nonBlank_dropLast {init : List (Bytes × Nat)} {q : Bytes × Nat}
    (hq : isBlankLine q.1 = false) :
    init.filter (fun p => !isBlankLine p.1) ≠ (init ++ [q]).filter fun p => !isBlankLine p.1 := by
  intro h
  have hlen := congrArg List.length h
  rw [List.filter_append, List.filter_cons_of_pos (by rw [hq]; rfl), List.length_append] at hlen
  simp at hlen

/-- With continuation, the same lines are handed on unless the file ends in a
line that goes on, and its newline. -/
theorem handed_agree_iff (hsame : SameSettings cfg knobs) (hnul : cfg.nulReject = true)
    (hbom : cfg.bom = .literal) (hcrlf : cfg.stripCr = false) (hcont : cfg.shellCont = true)
    {f : Bytes} (hfit : C.LinesFit f)
    (hjoined : ∀ q ∈ joinFrom [] 0 (Lines.lines Byte.nl f), q.1.length ≤ C.maxLine) :
    (C.processFile backend cfg path (C.Stream.ofBytes f) cenv).2.nonBlank =
        (Awk.normalize knobs (.readable path f) aenv).2.nonBlank ↔
      Byte.nul ∈ f ∨ ¬ EndsInContinuation f := by
  have hphysical := C.physicalLines_off hcrlf
  have hdata : ∀ data, C.prePasses cfg (C.Stream.ofBytes f) = .ok data → data = f := by
    intro data h
    have hmem := C.nul_not_mem_of_prePasses hnul h
    have hpass := C.prePasses_literal hbom fun h => hmem h.2
    exact Except.ok.inj (h.symm.trans hpass)
  rcases outputs path backend cenv aenv hsame hfit (by
    intro data h _
    rw [hphysical, hdata data h]
    exact hjoined) with ⟨code, hpass, hc, ha⟩ | ⟨data, ls, hpass, hls, hc, ha⟩
  · rw [hc, ha]
    refine iff_of_true rfl (Or.inl ?_)
    by_contra hmem
    rw [C.prePasses_literal hbom fun h => hmem h.2] at hpass
    cases hpass
  · obtain rfl := hdata data hpass
    have hmem := C.nul_not_mem_of_prePasses hnul hpass
    have hls : ls = Lines.lines Byte.nl data := by
      rcases hls with rfl | ⟨hstrip, rfl, rfl⟩
      · exact hphysical _
      · rw [hbom] at hstrip
        cases hstrip
    rw [hc, ha, Out.nonBlank, Out.nonBlank, (C.isBody_body backend cfg path).handed_run,
      (Awk.isBody_validate knobs path).handed_run, C.handedLines, Meaning.logical,
      hsame.shellCont, hcont, if_pos rfl, if_pos rfl, hphysical, hls, C.logicalLines,
      endsInContinuation_iff]
    cases hpend :
      decide (Lines.rest Byte.nl data = []) && pending [] (Lines.lines Byte.nl data) with
    | false => exact iff_of_true rfl (Or.inr Bool.false_ne_true)
    | true =>
        refine iff_of_false ?_ (fun h => h.elim hmem (fun h => h rfl))
        obtain ⟨init, q, hjoin, hq⟩ := joinFrom_pending (n := 0) (Bool.and_eq_true_iff.mp hpend).2
        rw [if_pos rfl, hjoin, List.dropLast_concat]
        exact nonBlank_dropLast (not_blank_of_continues hq)

/-- The default configuration, with continued lines joined. -/
def C.Config.joining : C.Config :=
  { C.Config.default with
    bom := .literal
    shellCont := true
    native_bom := nofun
    native_cont := nofun }

/-- `A=1` and a backslash, and the newline that ends the file. -/
def continuedLast : Bytes := [65, 61, 49, Byte.backslash, Byte.nl]

theorem handed_agree_iff_continuedLast :
    (C.processFile .c .joining [] (C.Stream.ofBytes continuedLast) .zero).2.nonBlank =
        (Awk.normalize C.Config.joining.knobs (.readable [] continuedLast) ∅).2.nonBlank ↔
      Byte.nul ∈ continuedLast ∨ ¬ EndsInContinuation continuedLast :=
  handed_agree_iff [] .c .zero ∅ (sameSettings_knobs _) rfl rfl rfl rfl (by decide) (by decide)

/-- The C front end loses the line, the reference hands it on. -/
theorem continuedLast_lost :
    C.LinesFit continuedLast ∧
    (∀ q ∈ joinFrom [] 0 (Lines.lines Byte.nl continuedLast), q.1.length ≤ C.maxLine) ∧
    (C.processFile .c .joining [] (C.Stream.ofBytes continuedLast) .zero).2.nonBlank = [] ∧
    (Awk.normalize C.Config.joining.knobs (.readable [] continuedLast) ∅).2.nonBlank =
      [([65, 61, 49, Byte.backslash], 1)] := by
  refine ⟨by decide, by decide, ?_, ?_⟩ <;> decide

end Both

end Files

end Envfile

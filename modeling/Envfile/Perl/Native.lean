/-
# `Envfile.Perl.Native` — native values in the Perl script

Native format promises that a value is every byte after the first `=`.  The
script takes a CR off the line to see whether it is blank, and goes on with
what is left: `dump` prints each record without the CR that may end it
(`processFile_dump`).  So it keeps the promise for the files in which no record
ends in a CR.
-/
import Envfile.Perl.Classify

namespace Envfile

/-- A line of a native file that is a binding: not blank, no comment, and with
a key. -/
def isNativeRecord (line : Bytes) : Bool :=
  !isSkipped line && (splitEquals line).any fun p => p.1 != []

/-- The lines of a file, continued lines joined where that is asked for. -/
def fileLines (join : Bool) (f : Bytes) : List Bytes :=
  if join then (joinFrom [] 0 (Lines.lines Byte.nl f)).map Prod.fst else Lines.lines Byte.nl f

theorem nl_not_mem_fileLines {join : Bool} {f line : Bytes} (h : line ∈ fileLines join f) :
    Byte.nl ∉ line := by
  intro hnl
  cases join with
  | false => exact Lines.sep_not_mem_lines Byte.nl h hnl
  | true =>
      obtain ⟨q, hq, rfl⟩ := List.mem_map.mp h
      rcases mem_joinFrom hq hnl with hnil | ⟨l, hl, hnl⟩
      · exact absurd hnil List.not_mem_nil
      · exact Lines.sep_not_mem_lines Byte.nl hl hnl

namespace Perl

theorem bindings_native (line : Bytes) :
    (outcome true line).bindings.flatMap Binding.text =
      if isNativeRecord line then trimCr line ++ [Byte.nl] else [] := by
  have hspace : isSpace Byte.equals = false := rfl
  rw [outcome, isNativeRecord, assignmentOutcome]
  rcases line_shape line with ⟨hno, hsplit⟩ | ⟨k, raw, rfl, hk, hsplit⟩
  · have hsplit' : splitEquals (trimCr line) = none :=
      splitEquals_none.mpr fun h => hno (trimCr_subset line h)
    rw [hsplit, hsplit', Option.any_none, Bool.and_false]
    split <;> rfl
  · rw [hsplit, trimCr_assignment, splitEquals_append hk, Option.any_some]
    simp only [if_true]
    rw [nativeAssignment]
    by_cases hnil : k = []
    · rw [if_pos hnil, bne_eq_false_iff_eq.mpr hnil, Bool.and_false]
      split <;> rfl
    · rw [Port.isSkipped_assignment hspace hnil, isSkipped_assignment hnil, if_neg hnil,
        bne_iff_ne.mpr hnil, Bool.and_true]
      cases k.head? == some Byte.hash with
      | true => rfl
      | false => simp [Outcome.bindings, Binding.text]

section Dump

variable {cfg : Knobs} (hnative : cfg.native = true) (hdump : cfg.action = some .dump)
  (hcrlf : cfg.crlfStrip = false) {f : Bytes} (hnul : Byte.nul ∉ f)

include hnative hdump hcrlf hnul

theorem processFile_native (display : Bytes) (env : EnvHash) :
    (processFile cfg display f env).2 =
      ((Lines.number 0 (fileLines cfg.contAccept f)).map fun p =>
        Out.hand p.1 p.2 + (port.record cfg display p.2 (outcome true p.1) env).2).sum := by
  have hread : readLines cfg f = .ok (Lines.lines Byte.nl f) := by
    have hindex : index f Byte.nul = none := memchr_eq_none.mpr hnul
    have hreject : (BomMode.literal == BomMode.reject) = false := rfl
    have hstrip : (BomMode.literal == BomMode.strip) = false := rfl
    simp only [readLines, hindex, Option.isSome_none, cfg.native_bom hnative, hreject, hstrip, hcrlf,
      Bool.and_false, Bool.false_eq_true, if_false, splitLines_eq]
  have hlines : logicalLines cfg (Lines.lines Byte.nl f) = fileLines cfg.contAccept f :=
    logicalLines_eq cfg _
  have hact : cfg.action ≠ some .normalize := by
    rw [hdump]
    rintro ⟨⟩
  rw [processFile, hread]
  simp only [numberLines_eq, hlines]
  refine congrArg Prod.snd (Step.run_eq_sum ?_ env)
  intro p _ s
  rw [validateLine_eq _ _ _ hact, hnative, Step.prepend, Port.record_dump _ _ _ _ hdump,
    Port.record_dump _ _ _ _ hdump]

theorem processFile_dump (display : Bytes) (env : EnvHash) :
    (processFile cfg display f env).2.bytes =
      Lines.unlines Byte.nl (((fileLines cfg.contAccept f).filter isNativeRecord).map trimCr) := by
  have hbytes : ∀ p : Bytes × Nat,
      (Out.hand p.1 p.2 + (port.record cfg display p.2 (outcome true p.1) env).2 : Out Nat).bytes =
        if isNativeRecord p.1 then trimCr p.1 ++ [Byte.nl] else [] := by
    intro p
    rw [Out.bytes_add, Port.record_dump _ _ _ _ hdump, ← bindings_native]
    rfl
  rw [processFile_native hnative hdump hcrlf hnul, Out.bytes_sum, List.flatMap_map]
  simp only [hbytes]
  have hfst := List.flatMap_map Prod.fst
    (fun line => if isNativeRecord line then trimCr line ++ [Byte.nl] else [])
    (Lines.number 0 (fileLines cfg.contAccept f))
  rw [← hfst, Lines.number_fst]
  generalize fileLines cfg.contAccept f = lines
  induction lines with
  | nil => rfl
  | cons line lines ih =>
      rw [List.flatMap_cons, List.filter_cons, ih]
      cases isNativeRecord line with
      | true =>
          simp only [if_true, List.map_cons]
          rw [Lines.unlines_cons, List.append_assoc]
          rfl
      | false => rfl

/-- The script dumps each record of a native file byte for byte exactly when
none of them ends in a CR. -/
theorem dump_native_iff (display : Bytes) (env : EnvHash) :
    (processFile cfg display f env).2.bytes =
        Lines.unlines Byte.nl ((fileLines cfg.contAccept f).filter isNativeRecord) ↔
      ∀ line ∈ fileLines cfg.contAccept f, isNativeRecord line = true →
        line.getLast? ≠ some Byte.cr := by
  have hnl : ∀ line ∈ (fileLines cfg.contAccept f).filter isNativeRecord, Byte.nl ∉ line :=
    fun line h => nl_not_mem_fileLines (List.mem_of_mem_filter h)
  rw [processFile_dump hnative hdump hcrlf hnul]
  constructor
  · intro h line hline hrecord
    -- the lines can be read off what is printed
    have hnl' : ∀ line ∈ ((fileLines cfg.contAccept f).filter isNativeRecord).map trimCr,
        Byte.nl ∉ line := by
      intro line hline hmem
      obtain ⟨l, hl, rfl⟩ := List.mem_map.mp hline
      exact hnl l hl (trimCr_subset l hmem)
    have hsame := congrArg (Lines.lines Byte.nl) h
    rw [Lines.lines_unlines Byte.nl hnl, Lines.lines_unlines Byte.nl hnl'] at hsame
    have hself := List.map_inj_left.mp (hsame.trans (List.map_id _).symm)
    exact trimCr_eq_self.mp (hself line (List.mem_filter.mpr ⟨hline, hrecord⟩))
  · intro h
    have hself := List.map_inj_left.mpr fun line hline =>
      have ⟨hmem, hrecord⟩ := List.mem_filter.mp hline
      trimCr_eq_self.mpr (h line hmem hrecord)
    exact congrArg (Lines.unlines Byte.nl) (hself.trans (List.map_id _))

end Dump

/-- A file without a CR. -/
theorem dump_native_iff_plain :
    let cfg : Knobs := ⟨true, some .dump, .literal, false, true, false, fun _ => rfl⟩
    let f := ascii "A=1\n#x\n=y\nB=2"
    (processFile cfg (ascii "a") f ∅).2.bytes =
        Lines.unlines Byte.nl ((fileLines cfg.contAccept f).filter isNativeRecord) ↔
      ∀ line ∈ fileLines cfg.contAccept f, isNativeRecord line = true →
        line.getLast? ≠ some Byte.cr := by
  intro cfg f
  exact dump_native_iff rfl rfl rfl (by decide) (ascii "a") ∅

/-- The value of `TRAIL` is `test` and a CR; it is dumped as `test`. -/
theorem not_dump_native :
    let cfg : Knobs := ⟨true, some .dump, .literal, false, true, false, fun _ => rfl⟩
    let f := ascii "TRAIL=test\r\n"
    Byte.nul ∉ f ∧ (processFile cfg (ascii "a") f ∅).2.bytes = ascii "TRAIL=test\n" ∧
      (processFile cfg (ascii "a") f ∅).2.bytes ≠
        Lines.unlines Byte.nl ((fileLines cfg.contAccept f).filter isNativeRecord) := by
  decide +kernel

end Perl

end Envfile

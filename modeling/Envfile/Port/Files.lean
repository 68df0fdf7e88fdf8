/-
# `Envfile.Port.Files` — the passes of the programs that read whole files

The programs that read a file at one go cut it into lines, look for a BOM in
the first line, and take the CRs off if every line has one.  What these passes
leave is `physical`; the join that follows looks ahead, and numbers the lines
where it is off (`logical_eq`).
-/
import Envfile.Awk.Files
import Envfile.Runs

namespace Envfile

open Meaning

/-- A BOM pass that looks at the first line. -/
structure FirstLineBom (cfg : Knobs) (pass : List Bytes → Except Code (List Bytes)) : Prop where
  nil : pass [] = .ok []
  cons : ∀ first others, pass (first :: others) =
    if bomBytes.isPrefixOf first then
      match cfg.bom with
      | .reject => .error .fileBom
      | .strip => .ok (first.drop 3 :: others)
      | .literal => .ok (first :: others)
    else .ok (first :: others)

theorem FirstLineBom.eq_awk {cfg : Knobs} {pass : List Bytes → Except Code (List Bytes)}
    (h : FirstLineBom cfg pass) (lines : List Bytes) : pass lines = Awk.bomPass cfg lines := by
  cases lines with
  | nil => exact h.nil
  | cons first others =>
      have hfirst : (Awk.index first bomBytes = 1) = (bomBytes.isPrefixOf first = true) :=
        propext (Awk.index_eq_one first bomBytes)
      rw [h.cons, Awk.bomPass]
      simp only [hfirst]
      cases bomBytes.isPrefixOf first with
      | true => cases cfg.bom <;> rfl
      | false => rfl

/-- A CRLF pass that asks every line for a CR. -/
def AllCrlf (strip : List Bytes → List Bytes) : Prop :=
  ∀ lines, strip lines =
    if lines.all fun l => l.getLast? == some Byte.cr then lines.map trimCr else lines

theorem AllCrlf.stripCrs_eq {strip : List Bytes → List Bytes} (h : AllCrlf strip) (cfg : Knobs)
    (lines : List Bytes) : (if cfg.crlfStrip then strip lines else lines) = stripCrs cfg lines := by
  rw [stripCrs, h]
  cases cfg.crlfStrip <;> rfl

theorem physical_eq {cfg : Knobs} {pass : List Bytes → Except Code (List Bytes)}
    {strip : List Bytes → List Bytes} (hpass : FirstLineBom cfg pass) (hstrip : AllCrlf strip)
    (f : Bytes) :
    (if cfg.nulReject && decide (Byte.nul ∈ f) then .error .fileNul
      else (pass (Lines.lines Byte.nl f)).map fun lines =>
        if cfg.crlfStrip then strip lines else lines) = physical cfg f := by
  have hnul : (cfg.nulReject && decide (Byte.nul ∈ f)) = true ↔
      cfg.nulReject = true ∧ Byte.nul ∈ f := by
    rw [Bool.and_eq_true, decide_eq_true_iff]
  simp only [hpass.eq_awk, Awk.bomPass_lines, hstrip.stripCrs_eq, physical, hnul]
  split
  · rfl
  split
  · cases cfg.bom <;> rfl
  · rfl

theorem logical_eq {gather : Bytes → List Bytes → Nat → Bytes × List Bytes × Nat}
    {join : Nat → List Bytes → Nat → List (Bytes × Nat)} {number : Nat → List Bytes → List (Bytes × Nat)}
    (hjoin : GatherLoop gather join) (hnumber : ∀ n lines, number n lines = Lines.number n lines)
    (cfg : Knobs) (lines : List Bytes) :
    (if cfg.contAccept then join lines.length lines 0 else number 0 lines) = logical cfg lines := by
  rw [logical, hjoin.join_eq, hnumber]

end Envfile

/-
# `Envfile.Compare.CrlfPass` — the CRLF pass of the scripts

`ENVFILE_CRLF=strip` takes the CRs off when every line ends in one.  The
reference finds that an empty line does not; the Perl script and the shell
script pass over the empty lines.  So they take the CRs off in files in which
some line is empty and each of the others ends in a CR, and in these alone they
differ from the reference.
-/
import Envfile.Awk.Files
import Envfile.Perl.Program
import Envfile.Sh.Join

namespace Envfile

/-! ## The passes -/

/-- The test of `normalize`. -/
def Awk.allCrlf (lines : List Bytes) : Bool :=
  lines.all fun l => Awk.substr l l.length 1 == [Byte.cr]

/-- The test of both scripts. -/
def othersEndInCr (lines : List Bytes) : Bool :=
  lines.all fun l => l == [] || l.getLast? == some Byte.cr

theorem Awk.allCrlf_eq (lines : List Bytes) :
    Awk.allCrlf lines = lines.all fun l => l.getLast? == some Byte.cr := by
  simp only [Awk.allCrlf, Awk.substr_last]

theorem Perl.stripCrlf_eq (lines : List Bytes) :
    Perl.stripCrlf lines = if othersEndInCr lines then lines.map trimCr else lines := by
  have htrim : ∀ l : Bytes, (if l.length > 0 then trimCr l else l) = trimCr l := by
    intro l
    cases l <;> rfl
  simp only [Perl.stripCrlf, htrim]
  rfl

namespace Sh

theorem allCrlf_eq (input : Bytes) :
    allCrlf input = othersEndInCr (Lines.lines Byte.nl input) := by
  rw [allCrlf, readLines_eq, othersEndInCr]
  congr 1
  funext l
  cases l <;> rfl

theorem readLines_stripCrlf (input : Bytes) :
    readLines (stripCrlf input) =
      if othersEndInCr (Lines.lines Byte.nl input) then (Lines.lines Byte.nl input).map trimCr
      else Lines.lines Byte.nl input := by
  rw [stripCrlf, allCrlf_eq]
  split
  · have hnl : ∀ l ∈ (Lines.lines Byte.nl input).map trimCr, Byte.nl ∉ l := by
      intro l hl
      obtain ⟨m, hm, rfl⟩ := List.mem_map.mp hl
      exact fun h => Lines.sep_not_mem_lines Byte.nl hm (trimCr_subset m h)
    have hunlines : ((readLines input).map fun line => trimCr line ++ [Byte.nl]).flatten =
        Lines.unlines Byte.nl ((Lines.lines Byte.nl input).map trimCr) := by
      rw [Lines.unlines, List.map_map, readLines_eq]
      rfl
    rw [readLines_eq, hunlines, Lines.lines_unlines Byte.nl hnl]
  · exact readLines_eq input

end Sh

/-! ## Where they agree -/

/-- Both scripts find what the reference finds, and leave the lines that it
leaves.  The shell script reads the lines from a file. -/
structure CrlfPassAgrees (lines : List Bytes) : Prop where
  perlTest : Perl.allCrlf lines = Awk.allCrlf lines
  perlLines : Perl.stripCrlf lines = Awk.stripCrlf lines
  shTest : ∀ f, Byte.nul ∉ f → Lines.lines Byte.nl f = lines → Sh.allCrlf f = Awk.allCrlf lines
  shLines : ∀ f, Byte.nul ∉ f → Lines.lines Byte.nl f = lines →
    Sh.readLines (Sh.stripCrlf f) = Awk.stripCrlf lines

/-- No line is empty, or some other line does not end in a CR. -/
def EmptyLinesIdle (lines : List Bytes) : Prop :=
  (∀ l ∈ lines, l ≠ []) ∨ ∃ l ∈ lines, l ≠ [] ∧ l.getLast? ≠ some Byte.cr

theorem othersEndInCr_iff (lines : List Bytes) :
    othersEndInCr lines = Awk.allCrlf lines ↔ EmptyLinesIdle lines := by
  rw [Awk.allCrlf_eq, othersEndInCr, EmptyLinesIdle, Bool.eq_iff_iff, List.all_eq_true,
    List.all_eq_true]
  simp only [Bool.or_eq_true, beq_iff_eq]
  constructor
  · intro h
    by_cases hall : ∀ l ∈ lines, l = [] ∨ l.getLast? = some Byte.cr
    · left
      rintro l hl rfl
      cases h.mp hall [] hl
    · right
      simpa only [not_forall, not_or, exists_prop] using hall
  · rintro (hne | ⟨l, hl, hne, hlast⟩)
    · exact ⟨fun h l hl => (h l hl).resolve_left (hne l hl), fun h l hl => Or.inr (h l hl)⟩
    · refine iff_of_false ?_ fun h => hlast (h l hl)
      exact fun h => (h l hl).elim hne hlast

/-- The CRLF pass of the Perl and shell scripts is the reference's exactly for
the files in which no line is empty or some other line lacks its CR. -/
theorem crlfPassAgrees_iff (lines : List Bytes) :
    CrlfPassAgrees lines ↔ EmptyLinesIdle lines := by
  rw [← othersEndInCr_iff]
  constructor
  · intro h
    exact h.perlTest
  · intro h
    have hawk : Awk.stripCrlf lines = if othersEndInCr lines then lines.map trimCr else lines := by
      rw [h, Awk.allCrlf_eq, Awk.stripCrlf_eq]
    refine ⟨h, (Perl.stripCrlf_eq lines).trans hawk.symm, ?_, ?_⟩
    · rintro f - rfl
      rw [Sh.allCrlf_eq, h]
    · rintro f - rfl
      rw [Sh.readLines_stripCrlf, hawk]

/-- `A=1` with a CR and an empty line: the scripts take the CR off, which the
reference leaves where it is. -/
theorem not_crlfPassAgrees :
    let lines := [ascii "A=1\r", []]
    let f := ascii "A=1\r\n\n"
    ¬ CrlfPassAgrees lines ∧
      Awk.allCrlf lines = false ∧ Awk.stripCrlf lines = lines ∧
      Perl.allCrlf lines = true ∧ Perl.stripCrlf lines = [ascii "A=1", []] ∧
      Sh.allCrlf f = true ∧ Sh.readLines (Sh.stripCrlf f) = [ascii "A=1", []] := by
  refine ⟨?_, by decide, by decide, by decide, by decide, by decide, by decide⟩
  intro h
  exact absurd h.perlTest (by decide)

end Envfile

/-
# `Envfile.Output` — what a run writes

Every port writes three things: `KEY=VALUE` lines on stdout, diagnostics on
stderr, and at the very end the two counters.  All three only ever grow, so
the output of a run is a sum of the outputs of its steps (`Envfile.Lib.Step`)
and `Out` is an additive monoid.

The counters are of a type `ι` that the port chooses: `Int32` for the `int`
of the C front end, `Int64` for the `int` of the Go program, `UInt64` and
`UInt32` for the Rust and Zig ones, `Nat` for the numbers of the AWK reference
and of the Perl script.

`handed` is not printed.  It records the lines a port hands to its record
classifier, with their line numbers, in the order in which it does.
-/
import Envfile.Bytes
import Envfile.Lib.Step
import Mathlib.Algebra.Group.Hom.Defs
import Mathlib.Data.Nat.Cast.Defs
import Mathlib.Data.Nat.Cast.Basic
import Mathlib.Data.UInt
import Mathlib.Tactic.Simps.Basic

namespace Envfile

/-! ## Diagnostics -/

/-- The diagnostic codes of the compiled ports and the reference. -/
inductive Code where
  | fileUnreadable
  | fileNul
  | fileBom
  | cannotOpen
  | lineTooLong
  | noEquals
  | emptyKey
  | keyInvalid
  | keyLeadingWhitespace
  | keyTrailingWhitespace
  | valueLeadingWhitespace
  | valueInvalidChar
  | singleQuoteUnterminated
  | doubleQuoteUnterminated
  | trailingContent
  | unknown
  | unboundRef
deriving DecidableEq, Repr

def Code.text : Code → String
  | fileUnreadable => "FILE_ERROR_FILE_UNREADABLE"
  | fileNul => "FILE_ERROR_NUL"
  | fileBom => "FILE_ERROR_BOM"
  | cannotOpen => "envfile: cannot open"
  | lineTooLong => "LINE_ERROR_LINE_TOO_LONG"
  | noEquals => "LINE_ERROR_NO_EQUALS"
  | emptyKey => "LINE_ERROR_EMPTY_KEY"
  | keyInvalid => "LINE_ERROR_KEY_INVALID"
  | keyLeadingWhitespace => "LINE_ERROR_KEY_LEADING_WHITESPACE"
  | keyTrailingWhitespace => "LINE_ERROR_KEY_TRAILING_WHITESPACE"
  | valueLeadingWhitespace => "LINE_ERROR_VALUE_LEADING_WHITESPACE"
  | valueInvalidChar => "LINE_ERROR_VALUE_INVALID_CHAR"
  | singleQuoteUnterminated => "LINE_ERROR_SINGLE_QUOTE_UNTERMINATED"
  | doubleQuoteUnterminated => "LINE_ERROR_DOUBLE_QUOTE_UNTERMINATED"
  | trailingContent => "LINE_ERROR_TRAILING_CONTENT"
  | unknown => "LINE_ERROR_UNKNOWN"
  | unboundRef => "LINE_ERROR_UNBOUND_REF"

/-- The codes of `docs/ERRORS.md` that reject a whole file. -/
def Code.isFileError : Code → Bool
  | fileUnreadable | fileNul | fileBom => true
  | _ => false

/-- The codes that the fault of a single record has. -/
def Code.isRecordCode : Code → Bool
  | fileUnreadable | fileNul | fileBom | cannotOpen | lineTooLong => false
  | _ => true

/-- One line on stderr: the code, the name of an unbound reference, the path
and, for the diagnostics that have one, the line number. -/
structure Diag where
  code : Code
  name : Option Bytes
  path : Bytes
  lineNo : Option Nat
deriving DecidableEq, Repr

/-- `CODE (NAME): PATH:LINE`, the parts a diagnostic lacks left out. -/
def Diag.text (d : Diag) : Bytes :=
  ascii d.code.text
    ++ (match d.name with
        | some n => ascii " (" ++ n ++ ascii ")"
        | none => [])
    ++ ascii ": " ++ d.path
    ++ (match d.lineNo with
        | some n => ascii ":" ++ ascii (toString n)
        | none => [])

/-- The same diagnostic about another place. -/
def Diag.relocate (path : Bytes → Bytes) (line : Nat → Nat) (d : Diag) : Diag :=
  { d with path := path d.path, lineNo := d.lineNo.map line }

/-- The same diagnostic `k` lines further down. -/
def Diag.shift (k : Nat) : Diag → Diag := Diag.relocate id (· + k)

/-- The same diagnostic, its name spelled as `spell` does. -/
def Diag.respell (spell : Bytes → Bytes) (d : Diag) : Diag := { d with name := d.name.map spell }

/-! ## Counters -/

instance int32Counter : AddMonoidWithOne Int32 where
  add_assoc := Int32.add_assoc
  zero_add := Int32.zero_add
  add_zero := Int32.add_zero
  nsmul := nsmulRec
  natCast := Int32.ofNat
  natCast_zero := rfl
  natCast_succ := fun n => Int32.ofNat_add n 1

instance int64Counter : AddMonoidWithOne Int64 where
  add_assoc := Int64.add_assoc
  zero_add := Int64.zero_add
  add_zero := Int64.add_zero
  nsmul := nsmulRec
  natCast := Int64.ofNat
  natCast_zero := rfl
  natCast_succ := fun n => Int64.ofNat_add n 1

instance uint32Counter : AddMonoidWithOne UInt32 where
  add_assoc := UInt32.add_assoc
  zero_add := UInt32.zero_add
  add_zero := UInt32.add_zero
  nsmul := nsmulRec
  natCast := UInt32.ofNat
  natCast_zero := rfl
  natCast_succ := fun n => UInt32.ofNat_add n 1

instance uint64Counter : AddMonoidWithOne UInt64 where
  add_assoc := UInt64.add_assoc
  zero_add := UInt64.zero_add
  add_zero := UInt64.add_zero
  nsmul := nsmulRec
  natCast := UInt64.ofNat
  natCast_zero := rfl
  natCast_succ := fun n => UInt64.ofNat_add n 1

/-! ## The output of a step or of a run -/

/-- A line `key=value` on stdout, before it is written out. -/
abbrev Binding := Bytes × Bytes

def Binding.text (b : Binding) : Bytes := b.1 ++ Byte.equals :: b.2 ++ [Byte.nl]

@[ext] structure Out (ι : Type) where
  stdout : List Binding
  diags : List Diag
  checked : ι
  errors : ι
  handed : List (Bytes × Nat)

namespace Out

variable {ι : Type}

/-- The bytes on stdout. -/
def bytes (o : Out ι) : Bytes := (o.stdout.map Binding.text).flatten

/-- The codes on stderr, in order. -/
def codes (o : Out ι) : List Code := o.diags.map Diag.code

section Monoid

variable [AddMonoid ι]

instance : Zero (Out ι) := ⟨⟨[], [], 0, 0, []⟩⟩

instance : Add (Out ι) :=
  ⟨fun o p => ⟨o.stdout ++ p.stdout, o.diags ++ p.diags, o.checked + p.checked,
    o.errors + p.errors, o.handed ++ p.handed⟩⟩

@[simp] theorem zero_stdout : (0 : Out ι).stdout = [] := rfl
@[simp] theorem zero_diags : (0 : Out ι).diags = [] := rfl
@[simp] theorem zero_checked : (0 : Out ι).checked = 0 := rfl
@[simp] theorem zero_errors : (0 : Out ι).errors = 0 := rfl
@[simp] theorem zero_handed : (0 : Out ι).handed = [] := rfl
@[simp] theorem add_stdout (o p : Out ι) : (o + p).stdout = o.stdout ++ p.stdout := rfl
@[simp] theorem add_diags (o p : Out ι) : (o + p).diags = o.diags ++ p.diags := rfl
@[simp] theorem add_checked (o p : Out ι) : (o + p).checked = o.checked + p.checked := rfl
@[simp] theorem add_errors (o p : Out ι) : (o + p).errors = o.errors + p.errors := rfl
@[simp] theorem add_handed (o p : Out ι) : (o + p).handed = o.handed ++ p.handed := rfl

instance : AddMonoid (Out ι) where
  add_assoc o p q := by ext1 <;> simp [add_assoc]
  zero_add o := by ext1 <;> simp
  add_zero o := by ext1 <;> simp
  nsmul := nsmulRec

@[simp] theorem bytes_add (o p : Out ι) : (o + p).bytes = o.bytes ++ p.bytes := by
  simp [bytes]

@[simp] theorem codes_add (o p : Out ι) : (o + p).codes = o.codes ++ p.codes := by
  simp [codes]

theorem stdout_sum (os : List (Out ι)) : os.sum.stdout = os.flatMap stdout := by
  induction os with
  | nil => rfl
  | cons o os ih => rw [List.sum_cons, add_stdout, ih, List.flatMap_cons]

theorem bytes_sum (os : List (Out ι)) : os.sum.bytes = os.flatMap bytes := by
  induction os with
  | nil => rfl
  | cons o os ih => rw [List.sum_cons, bytes_add, ih, List.flatMap_cons]

theorem diags_sum (os : List (Out ι)) : os.sum.diags = os.flatMap diags := by
  induction os with
  | nil => rfl
  | cons o os ih => rw [List.sum_cons, add_diags, ih, List.flatMap_cons]

end Monoid

section Writers

variable [AddMonoidWithOne ι]

/-- Print `key=value`. -/
@[simps] def print (key value : Bytes) : Out ι := ⟨[(key, value)], [], 0, 0, []⟩

/-- Print a diagnostic and count one error. -/
@[simps] def diag (d : Diag) : Out ι := ⟨[], [d], 0, 1, []⟩

/-- Count one record. -/
@[simps] def check : Out ι := ⟨[], [], 1, 0, []⟩

/-- Print a listing. -/
@[simps] def printAll (bs : List Binding) : Out ι := ⟨bs, [], 0, 0, []⟩

/-- Hand a line to the classifier. -/
@[simps] def hand (line : Bytes) (lineNo : Nat) : Out ι := ⟨[], [], 0, 0, [(line, lineNo)]⟩

variable (k v : Bytes) (d : Diag) (n : Nat)

@[simp] theorem codes_diag : (diag d : Out ι).codes = [d.code] := rfl
@[simp] theorem codes_check : (check : Out ι).codes = [] := rfl
@[simp] theorem codes_hand : (hand k n : Out ι).codes = [] := rfl

end Writers

/-! ## The output of one record -/

section FromRecord

variable [AddMonoidWithOne ι]

/-- A record hands nothing on, and reports faults of records. -/
structure FromRecord (o : Out ι) : Prop where
  handed : o.handed = []
  codes : ∀ code ∈ o.codes, code.isRecordCode = true

namespace FromRecord

variable {o p : Out ι}

theorem zero : FromRecord (0 : Out ι) := ⟨rfl, fun _ h => absurd h List.not_mem_nil⟩

theorem check : FromRecord (check : Out ι) := ⟨rfl, fun _ h => absurd h List.not_mem_nil⟩

theorem print (k v : Bytes) : FromRecord (print k v : Out ι) :=
  ⟨rfl, fun _ h => absurd h List.not_mem_nil⟩

theorem diag {d : Diag} (h : d.code.isRecordCode = true) : FromRecord (diag d : Out ι) := by
  refine ⟨rfl, ?_⟩
  intro code hcode
  rw [codes_diag, List.mem_singleton] at hcode
  rwa [hcode]

theorem add (ho : FromRecord o) (hp : FromRecord p) : FromRecord (o + p) := by
  refine ⟨by rw [add_handed, ho.handed, hp.handed, List.append_nil], ?_⟩
  intro code hcode
  rw [codes_add, List.mem_append] at hcode
  exact hcode.elim (ho.codes code) (hp.codes code)

omit [AddMonoidWithOne ι] in
theorem ite {q : Prop} [Decidable q] (ho : FromRecord o) (hp : FromRecord p) :
    FromRecord (if q then o else p) := by
  split
  · exact ho
  · exact hp

end FromRecord

variable {σ : Type}

/-- A loop body hands its line on; whatever else it writes is the output of a
record. -/
def IsBody (f : Bytes × Nat → Step σ (Out ι)) : Prop :=
  ∀ p s, ∃ o, (f p s).2 = hand p.1 p.2 + o ∧ FromRecord o

/-- A step that writes what a record writes. -/
def RecordStep (f : Step σ (Out ι)) : Prop := ∀ s, FromRecord (f s).2

namespace RecordStep

variable {f g : Step σ (Out ι)} {o : Out ι}

theorem skip : RecordStep (Step.skip : Step σ (Out ι)) := fun _ => .zero

omit [AddMonoidWithOne ι] in
theorem emit (h : FromRecord o) : RecordStep (Step.emit o : Step σ (Out ι)) := fun _ => h

theorem prepend (h : FromRecord o) (hf : RecordStep f) : RecordStep (Step.prepend o f) :=
  fun s => h.add (hf s)

omit [AddMonoidWithOne ι] in
theorem ite {q : Prop} [Decidable q] (hf : RecordStep f) (hg : RecordStep g) :
    RecordStep (if q then f else g) := by
  split
  · exact hf
  · exact hg

end RecordStep

theorem IsBody.handed_run {f : Bytes × Nat → Step σ (Out ι)} (h : IsBody f)
    (lines : List (Bytes × Nat)) (s : σ) : (Step.run f lines s).2.handed = lines := by
  induction lines generalizing s with
  | nil => rfl
  | cons p lines ih =>
      obtain ⟨o, ho, hrecord⟩ := h p s
      rw [Step.run_cons, add_handed, ih, ho, add_handed, hrecord.handed]
      rfl

theorem IsBody.codes_run {f : Bytes × Nat → Step σ (Out ι)} (h : IsBody f)
    (lines : List (Bytes × Nat)) (s : σ) :
    ∀ code ∈ (Step.run f lines s).2.codes, code.isRecordCode = true := by
  refine Step.run_out (fun _ => True) (fun o => ∀ code ∈ codes o, code.isRecordCode = true)
    (fun _ h => absurd h List.not_mem_nil) ?_ ?_ trivial
  · intro v w hv hw code hcode
    rw [codes_add, List.mem_append] at hcode
    exact hcode.elim (hv code) (hw code)
  · intro p _ s _
    obtain ⟨o, ho, hrecord⟩ := h p s
    refine ⟨trivial, ?_⟩
    rw [ho, codes_add, codes_hand, List.nil_append]
    exact hrecord.codes

end FromRecord

/-! ## The same output about another place -/

section Relocate

variable [AddMonoidWithOne ι] (path : Bytes → Bytes) (line : Nat → Nat)

/-- What is written about lines of another path with other numbers. -/
def relocate : Out ι →+ Out ι where
  toFun o := { o with
    diags := o.diags.map (Diag.relocate path line)
    handed := o.handed.map fun p => (p.1, line p.2) }
  map_zero' := rfl
  map_add' o p := by ext1 <;> simp

variable (o : Out ι) (k v : Bytes) (d : Diag) (n : Nat)

@[simp] theorem relocate_stdout : (relocate path line o).stdout = o.stdout := rfl
@[simp] theorem relocate_diags :
    (relocate path line o).diags = o.diags.map (Diag.relocate path line) := rfl
@[simp] theorem relocate_checked : (relocate path line o).checked = o.checked := rfl
@[simp] theorem relocate_errors : (relocate path line o).errors = o.errors := rfl

@[simp] theorem relocate_codes : (relocate path line o).codes = o.codes := by
  rw [codes, codes, relocate_diags, List.map_map]
  rfl

@[simp] theorem relocate_print : relocate path line (print k v : Out ι) = print k v := rfl
@[simp] theorem relocate_check : relocate path line (check : Out ι) = check := rfl
@[simp] theorem relocate_diag :
    relocate path line (diag d : Out ι) = diag (d.relocate path line) := rfl
@[simp] theorem relocate_hand :
    relocate path line (hand k n : Out ι) = hand k (line n) := rfl

end Relocate

/-! ## The same output with names spelled differently -/

section Respell

variable [AddMonoidWithOne ι] (spell : Bytes → Bytes)

/-- What is written by a port that spells the names in its diagnostics. -/
def respell : Out ι →+ Out ι where
  toFun o := { o with diags := o.diags.map (Diag.respell spell) }
  map_zero' := rfl
  map_add' o p := by ext1 <;> simp

variable (o : Out ι) (k v : Bytes) (d : Diag) (n : Nat)

@[simp] theorem respell_stdout : (respell spell o).stdout = o.stdout := rfl
@[simp] theorem respell_diags :
    (respell spell o).diags = o.diags.map (Diag.respell spell) := rfl
@[simp] theorem respell_checked : (respell spell o).checked = o.checked := rfl
@[simp] theorem respell_errors : (respell spell o).errors = o.errors := rfl
@[simp] theorem respell_print : respell spell (print k v : Out ι) = print k v := rfl
@[simp] theorem respell_check : respell spell (check : Out ι) = check := rfl
@[simp] theorem respell_diag :
    respell spell (diag d : Out ι) = diag (d.respell spell) := rfl
@[simp] theorem respell_hand : respell spell (hand k n : Out ι) = hand k n := rfl

theorem respell_congr {spell spell' : Bytes → Bytes}
    (h : ∀ d ∈ o.diags, ∀ name ∈ d.name, spell name = spell' name) :
    respell spell o = respell spell' o := by
  have hdiags : o.diags.map (Diag.respell spell) = o.diags.map (Diag.respell spell') := by
    refine List.map_congr_left ?_
    intro d hd
    rw [Diag.respell, Diag.respell, Option.map_congr fun name hname => h d hd name hname]
  ext1 <;> first | rfl | exact hdiags

theorem respell_id : respell id o = o := by
  have hdiags : o.diags.map (Diag.respell id) = o.diags := by
    refine (List.map_congr_left fun d _ => ?_).trans (List.map_id _)
    rw [Diag.respell, Option.map_id]
    rfl
  ext1 <;> first | rfl | exact hdiags

end Respell

/-- Two outputs are the same but for the places they name. -/
structure SameText (o p : Out ι) : Prop where
  stdout : o.stdout = p.stdout
  codes : o.codes = p.codes
  checked : o.checked = p.checked
  errors : o.errors = p.errors

namespace SameText

variable {o p q : Out ι}

theorem refl (o : Out ι) : o.SameText o := ⟨rfl, rfl, rfl, rfl⟩

theorem symm (h : o.SameText p) : p.SameText o :=
  ⟨h.stdout.symm, h.codes.symm, h.checked.symm, h.errors.symm⟩

theorem trans (h : o.SameText p) (h' : p.SameText q) : o.SameText q :=
  ⟨h.stdout.trans h'.stdout, h.codes.trans h'.codes, h.checked.trans h'.checked,
    h.errors.trans h'.errors⟩

theorem add [AddMonoid ι] {o' p' : Out ι} (h : o.SameText p) (h' : o'.SameText p') :
    (o + o').SameText (p + p') := by
  refine ⟨?_, ?_, ?_, ?_⟩
  · rw [add_stdout, add_stdout, h.stdout, h'.stdout]
  · rw [codes_add, codes_add, h.codes, h'.codes]
  · rw [add_checked, add_checked, h.checked, h'.checked]
  · rw [add_errors, add_errors, h.errors, h'.errors]

theorem relocate [AddMonoidWithOne ι] (path : Bytes → Bytes) (line : Nat → Nat) (o : Out ι) :
    (Out.relocate path line o).SameText o :=
  ⟨rfl, relocate_codes path line o, rfl, rfl⟩

end SameText

end Out

/-- How a run ends: what it wrote and its exit status. -/
structure Report (ι : Type) where
  out : Out ι
  exit : Nat

/-- The last line on stderr. -/
def Report.summary {ι : Type} [ToString ι] (r : Report ι) : Bytes :=
  ascii (toString r.out.checked ++ " checked, " ++ toString r.out.errors ++ " errors")

/-- What a run writes on stderr. -/
def Report.stderr {ι : Type} [ToString ι] (r : Report ι) : Bytes :=
  (r.out.diags.map fun d => d.text ++ [Byte.nl]).flatten ++ r.summary ++ [Byte.nl]

end Envfile

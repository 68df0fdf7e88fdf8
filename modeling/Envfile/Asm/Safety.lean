/-
# `Envfile.Asm.Safety` — the assembly functions stay inside their line

`StaysInside` is memory safety of a call, as far as its line goes: loads,
counters, halting and the slices it reports.  Both functions have it on every
line of every length, up to one exception: the shell function on the line that
is a single CR.  It takes the CR off, enters `find_eq` with a counter of 0, and
runs past the line.
-/
import Envfile.Asm.Classify

namespace Envfile.Asm

open Machine

/-- The slice of `n` bytes at `p` lies inside the line of a call. -/
def SliceInside (regs : Regs) (p n : Word) : Prop :=
  (p - regs.rdi).toNat + n.toNat ≤ regs.rsi.toNat

/-- What a call does with its line `[rdi, rdi + rsi)`. -/
structure StaysInside {L : Type} (m : Machine (State L) Event) (regs : Regs) (start : State L) :
    Prop where
  loads : ∀ addr, Executes m start (.load addr) → (addr - regs.rdi).toNat < regs.rsi.toNat
  counters : ∀ old, Executes m start (.decRcx old) → old ≠ 0
  halts : ∃ t, Reaches m start t ∧ m t = none
  slices : ∀ t, Reaches m start t → m t = none → t.regs.rax = statusWord .ok →
    ∃ record, t.out = some record ∧ SliceInside regs record.key record.keyLen ∧
      SliceInside regs record.value record.valueLen

/-! ## The slices of an outcome -/

/-- The slices a port reports for an outcome lie inside the line. -/
def Fits (line : Bytes) : Outcome → Prop
  | .accepted key value quoting =>
      key.length + (if quoting = .plain then 1 else 2) + value.length ≤ line.length
  | _ => True

theorem unquote_length {v value : Bytes} {quoting : Quoting}
    (h : unquote v = .ok (value, quoting)) :
    (if quoting = .plain then 0 else 1) + value.length ≤ v.length := by
  rcases unquote_ok h with ⟨rfl, rfl, -⟩ | ⟨q, -, rfl, rfl, -⟩
  · simp
  · rw [if_neg (ofQuote_ne_plain q), List.length_cons, List.length_append]
    omega

theorem fits_ofValue {k v : Bytes} {value : Except Code (Bytes × Quoting)}
    (hvalue : ∀ w quoting, value = .ok (w, quoting) → unquote v = .ok (w, quoting)) :
    Fits (k ++ Byte.equals :: v) (.ofValue k value) := by
  cases value with
  | error code => trivial
  | ok p =>
      have := unquote_length (hvalue p.1 p.2 rfl)
      show k.length + (if p.2 = .plain then 1 else 2) + p.1.length ≤ _
      rw [List.length_append, List.length_cons]
      cases hp : decide (p.2 = .plain) with
      | true =>
          rw [decide_eq_true_iff] at hp
          simp only [hp, if_true] at this ⊢
          omega
      | false =>
          rw [decide_eq_false_iff_not] at hp
          simp only [if_neg hp] at this ⊢
          omega

theorem Fits.mono {line line' : Bytes} {o : Outcome} (h : Fits line o)
    (hle : line.length ≤ line'.length) : Fits line' o := by
  cases o with
  | accepted key value quoting => exact le_trans h hle
  | skipped => trivial
  | rejected code => trivial

theorem fits_assignment {assignment : Bytes → Bytes → Outcome}
    (h : ∀ k v, Fits (k ++ Byte.equals :: v) (assignment k v)) (line : Bytes) :
    Fits line (assignmentOutcome assignment line) := by
  rw [assignmentOutcome]
  rcases line_shape line with ⟨-, hsplit⟩ | ⟨k, v, rfl, -, hsplit⟩
  · rw [hsplit]
    trivial
  · rw [hsplit]
    exact h k v

theorem trimCr_length_le (s : Bytes) : (trimCr s).length ≤ s.length := by
  rcases cr_cases s with ⟨t, rfl⟩ | h
  · rw [trimCr_concat_cr]
    simp
  · rw [trimCr_of_getLast? h]

theorem fits_shellOutcome (line : Bytes) : Fits line (shellOutcome line) := by
  rw [shellOutcome]
  split
  · trivial
  · refine (fits_assignment ?_ _).mono (trimCr_length_le line)
    intro k v
    rw [shellAssignmentAsm]
    split
    · trivial
    split
    · trivial
    split
    · trivial
    refine fits_ofValue ?_
    intro w quoting h
    rw [unquoteNul] at h
    split at h
    · cases h
    · exact h

theorem fits_nativeOutcome (line : Bytes) : Fits line (nativeOutcome line) := by
  rw [nativeOutcome]
  split
  · trivial
  · refine fits_assignment ?_ _
    intro k v
    rw [nativeAssignmentAsm]
    split
    · trivial
    split
    · trivial
    · show k.length + 1 + v.length ≤ _
      rw [List.length_append, List.length_cons]
      omega

/-! ## Safety of a call -/

section Safety

variable {L : Type} {m : Machine (State L) Event} {regs : Regs} {start : State L} {mem : Memory}

theorem slice_toNat (base : Word) {i n : Nat} {len : Word} (h : i + n ≤ len.toNat) :
    (base + BitVec.ofNat 64 i - base).toNat + (BitVec.ofNat 64 n).toNat ≤ len.toNat := by
  have hlen := len.isLt
  rw [word_sub_left, BitVec.toNat_ofNat, BitVec.toNat_ofNat, Nat.mod_eq_of_lt (by omega),
    Nat.mod_eq_of_lt (by omega)]
  exact h

theorem staysInside_of_answers {o : Outcome} (h : Answers m regs.rdi regs.rsi o start)
    (hfits : Fits (regs.line mem) o) : StaysInside m regs start where
  loads _ he := h.executes he
  counters _ he := h.executes he
  halts := by
    obtain ⟨t, ht, hnone, -⟩ := h.halts
    exact ⟨t, ht, hnone⟩
  slices t ht hnone hrax := by
    obtain ⟨hstatus, hout⟩ := h.of_reaches ht hnone
    have hlen : (regs.line mem).length = regs.rsi.toNat := length_loadBytes ..
    have hok : statusWord (C.answer o).1 = statusWord .ok := hstatus ▸ hrax
    cases o with
    | skipped => exact absurd hok (by decide)
    | rejected code => cases code <;> exact absurd hok (by decide)
    | accepted key value quoting =>
        refine ⟨_, hout rfl, ?_, ?_⟩
        · refine slice_toNat regs.rdi (i := 0) ?_
          have : key.length + _ + value.length ≤ _ := hfits
          show 0 + key.length ≤ _
          omega
        · refine slice_toNat regs.rdi ?_
          have : key.length + _ + value.length ≤ _ := hfits
          show key.length + _ + value.length ≤ _
          omega

theorem line_eq_cr (h : regs.line mem = [Byte.cr]) : regs.rsi = 1 ∧ mem regs.rdi = Byte.cr := by
  have hrsi := rsi_eq mem regs
  have hspan : Span mem regs.rdi regs.rsi regs.rdi (regs.line mem) := Span.line ..
  rw [h] at hrsi hspan
  exact ⟨hrsi, hspan.head⟩

/-- On a single CR the shell function enters `find_eq` with a counter of 0. -/
theorem shell_reaches_findEq (h : regs.line mem = [Byte.cr]) :
    ∃ r : Regs, r.rcx = 0 ∧ r.rdx = regs.rdi ∧
      Reaches (envfileParseShell mem) (call .entry regs) ⟨.findEq, r, none⟩ := by
  obtain ⟨hrsi, hmem⟩ := line_eq_cr h
  refine ⟨{ regs with
    r8 := regs.rdx, rax := movzx Byte.cr, rsi := 0, rcx := 0, rdx := regs.rdi }, rfl, rfl, ?_⟩
  have hentry : Next (envfileParseShell mem) (call .entry regs)
      ⟨.blankLoop, { regs with r8 := regs.rdx, rcx := regs.rsi, rdx := regs.rdi }, none⟩ :=
    ⟨[], if_neg (by rw [hrsi]; decide)⟩
  have hblank : Next (envfileParseShell mem)
      ⟨.blankLoop, { regs with r8 := regs.rdx, rcx := regs.rsi, rdx := regs.rdi }, none⟩
      ⟨.notBlank, { regs with
        r8 := regs.rdx, rcx := regs.rsi, rdx := regs.rdi, rax := movzx Byte.cr }, none⟩ := by
    refine ⟨[.load regs.rdi], ?_⟩
    simp only [envfileParseShell, hmem]
    rfl
  have hlast : regs.rdi + 1 - 1 = regs.rdi := BitVec.add_sub_cancel _ _
  have hnotBlank : Next (envfileParseShell mem)
      ⟨.notBlank, { regs with
        r8 := regs.rdx, rcx := regs.rsi, rdx := regs.rdi, rax := movzx Byte.cr }, none⟩
      ⟨.scanEq, { regs with
        r8 := regs.rdx, rcx := regs.rsi, rdx := regs.rdi, rax := movzx Byte.cr, rsi := 0 },
        none⟩ := by
    refine ⟨[.load regs.rdi, .load regs.rdi], ?_⟩
    simp only [envfileParseShell, hrsi, hlast, hmem]
    rfl
  exact .head hentry (.head hblank (.head hnotBlank (.single ⟨[], rfl⟩)))

/-- There it decrements that counter. -/
theorem shell_wraps (h : regs.line mem = [Byte.cr]) :
    Executes (envfileParseShell mem) (call .entry regs) (.decRcx 0) := by
  obtain ⟨r, hrcx, hrdx, hreaches⟩ := shell_reaches_findEq h
  have hne : ¬ (mem r.rdx == Byte.equals) = true := by
    rw [hrdx, (line_eq_cr h).2]
    decide
  have hrcx' : (r.rcx - 1 != 0) = true := by
    rw [hrcx]
    rfl
  refine ⟨_, _, [.load r.rdx, .decRcx r.rcx], hreaches, (if_neg hne).trans (if_pos hrcx'), ?_⟩
  rw [hrcx]
  exact List.mem_cons_of_mem _ List.mem_cons_self

end Safety

/-- The two functions stay inside their line exactly when the line is not a
single CR. -/
theorem staysInside_iff (mem : Memory) (regs : Regs) :
    (StaysInside (envfileParseShell mem) regs (call .entry regs) ∧
      StaysInside (envfileParseNative mem) regs (call .entry regs)) ↔
    regs.line mem ≠ [Byte.cr] := by
  constructor
  · intro h hcr
    exact h.1.counters 0 (shell_wraps hcr) rfl
  · intro hcr
    exact ⟨staysInside_of_answers (envfileParseShell_answers mem regs hcr) (fits_shellOutcome _),
      staysInside_of_answers (envfileParseNative_answers mem regs) (fits_nativeOutcome _)⟩

/-- The line that is the one byte 13. -/
theorem single_cr_not_staysInside :
    ¬ (StaysInside (envfileParseShell (memoryOf [Byte.cr])) (regsOf [Byte.cr])
        (call .entry (regsOf [Byte.cr])) ∧
      StaysInside (envfileParseNative (memoryOf [Byte.cr])) (regsOf [Byte.cr])
        (call .entry (regsOf [Byte.cr]))) :=
  fun h => h.1.counters 0 (shell_wraps (by decide)) rfl

end Envfile.Asm

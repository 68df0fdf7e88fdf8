/-
# `Envfile.Asm.Loops` — bytes in memory and the loops over them

`Span base len p w` says that the bytes at `p` are `w` and lie inside the line
`[base, base + len)`.  A loop that consumes its bytes one by one is proved by
induction on `w`: each round takes one byte off the span and one off the
counter, so that the counter is 0 exactly when the span is empty.

The two functions share the text of their first two loops, so these are
proved once, for any machine with those blocks.
-/
import Envfile.Asm.Backend
import Envfile.Record

namespace Envfile.Asm

open Machine

/-! ## Words -/

section Words

variable {n : Nat}

theorem word_succ : BitVec.ofNat 64 (n + 1) = BitVec.ofNat 64 n + 1 := BitVec.ofNat_add n 1

theorem word_pred : BitVec.ofNat 64 (n + 1) - 1 = BitVec.ofNat 64 n := by
  rw [word_succ, BitVec.add_sub_cancel]

theorem word_eq_zero (h : n < 2 ^ 64) : BitVec.ofNat 64 n = 0 ↔ n = 0 := by
  constructor
  · intro he
    have := congrArg BitVec.toNat he
    rwa [BitVec.toNat_ofNat, Nat.mod_eq_of_lt h] at this
  · rintro rfl
    rfl

theorem word_succ_ne_zero (h : n + 1 < 2 ^ 64) : BitVec.ofNat 64 (n + 1) ≠ 0 := by
  rw [ne_eq, word_eq_zero h]
  omega

theorem word_add_succ (p : Word) : p + 1 + BitVec.ofNat 64 n = p + BitVec.ofNat 64 (n + 1) := by
  rw [word_succ, BitVec.add_assoc, BitVec.add_comm 1]

theorem word_sub_left (p q : Word) : p + q - p = q := by
  rw [BitVec.add_comm, BitVec.add_sub_cancel]

end Words

/-! ## What the events of a call must satisfy -/

/-- Every load is inside `[base, base + len)`, and no counter that is already
0 is decremented. -/
def InLine (base len : Word) : Event → Prop
  | .load addr => (addr - base).toNat < len.toNat
  | .decRcx old => old ≠ 0

/-- The bytes at `p` are `w`, inside `[base, base + len)`. -/
structure Span (mem : Memory) (base len p : Word) (w : Bytes) : Prop where
  bytes : loadBytes mem p w.length = w
  inside : ∃ i, p = base + BitVec.ofNat 64 i ∧ i + w.length ≤ len.toNat

theorem length_loadBytes (mem : Memory) (p : Word) (n : Nat) : (loadBytes mem p n).length = n := by
  induction n generalizing p with
  | zero => rfl
  | succ n ih => rw [loadBytes, List.length_cons, ih]

theorem rsi_eq (mem : Memory) (regs : Regs) :
    regs.rsi = BitVec.ofNat 64 (regs.line mem).length := by
  rw [Regs.line, length_loadBytes, BitVec.ofNat_toNat, BitVec.setWidth_eq]

theorem rsi_eq_zero (mem : Memory) (regs : Regs) :
    (regs.rsi == 0) = (regs.line mem).isEmpty := by
  have hlen : (regs.line mem).length = regs.rsi.toNat := length_loadBytes ..
  cases hline : regs.line mem with
  | nil =>
      rw [rsi_eq mem regs, hline]
      rfl
  | cons c w =>
      refine beq_eq_false_iff_ne.mpr ?_
      intro h
      rw [hline, h] at hlen
      exact absurd hlen (Nat.succ_ne_zero _)

namespace Span

variable {mem : Memory} {base len p : Word} {u v w : Bytes} {c : UInt8}

theorem line (mem : Memory) (base len : Word) :
    Span mem base len base (loadBytes mem base len.toNat) := by
  refine ⟨by rw [length_loadBytes], 0, by simp, ?_⟩
  rw [length_loadBytes, Nat.zero_add]

theorem length_lt (h : Span mem base len p w) : w.length < 2 ^ 64 := by
  obtain ⟨i, -, hi⟩ := h.inside
  have := len.isLt
  omega

theorem head (h : Span mem base len p (c :: w)) : mem p = c := by
  have := h.bytes
  rw [List.length_cons, loadBytes] at this
  exact (List.cons.inj this).1

theorem tail (h : Span mem base len p (c :: w)) : Span mem base len (p + 1) w := by
  obtain ⟨i, hp, hi⟩ := h.inside
  have hb := h.bytes
  rw [List.length_cons, loadBytes] at hb
  refine ⟨(List.cons.inj hb).2, i + 1, ?_, ?_⟩
  · rw [hp, word_succ, BitVec.add_assoc]
  · rw [List.length_cons] at hi
    omega

theorem right (h : Span mem base len p (u ++ v)) :
    Span mem base len (p + BitVec.ofNat 64 u.length) v := by
  induction u generalizing p with
  | nil => simpa using h
  | cons a u ih =>
      have := ih h.tail
      rwa [word_add_succ] at this

theorem left (h : Span mem base len p (u ++ v)) : Span mem base len p u := by
  obtain ⟨i, hp, hi⟩ := h.inside
  have hb : loadBytes mem p u.length = u := by
    have hall := h.bytes
    clear hp hi h
    induction u generalizing p with
    | nil => rfl
    | cons a u ih =>
        rw [List.cons_append, List.length_cons, loadBytes] at hall
        obtain ⟨ha, hu⟩ := List.cons.inj hall
        rw [List.length_cons, loadBytes, ih hu, ha]
  refine ⟨hb, i, hp, ?_⟩
  rw [List.length_append] at hi
  omega

theorem load (h : Span mem base len p (c :: w)) : InLine base len (.load p) := by
  obtain ⟨i, rfl, hi⟩ := h.inside
  have hlt := len.isLt
  rw [List.length_cons] at hi
  show (base + BitVec.ofNat 64 i - base).toNat < len.toNat
  rw [word_sub_left, BitVec.toNat_ofNat, Nat.mod_eq_of_lt (by omega)]
  omega

theorem head? (h : Span mem base len p w) (hw : w ≠ []) : w.head? = some (mem p) := by
  cases w with
  | nil => exact absurd rfl hw
  | cons c w => rw [h.head]; rfl

theorem load_head (h : Span mem base len p w) (hw : w ≠ []) : InLine base len (.load p) := by
  cases w with
  | nil => exact absurd rfl hw
  | cons c w => exact h.load

theorem count (h : Span mem base len p (c :: w)) :
    InLine base len (.decRcx (BitVec.ofNat 64 (c :: w).length)) :=
  word_succ_ne_zero h.length_lt

theorem count_tail (h : Span mem base len p (c :: w)) :
    (BitVec.ofNat 64 (c :: w).length - 1 != 0) = !w.isEmpty := by
  have hlt := h.tail.length_lt
  rw [List.length_cons, word_pred]
  cases w with
  | nil => rfl
  | cons d w => exact bne_iff_ne.mpr (word_succ_ne_zero hlt)

end Span

/-! ## Classes of bytes -/

theorem jifSpace_eq (c : UInt8) : jifSpace c = isBlank c := rfl

theorem not_lt_eq_le (a c : UInt8) : (!decide (c < a)) = decide (a ≤ c) := by
  rw [← decide_not]
  exact decide_eq_decide.mpr UInt8.not_lt

theorem jifAlpha_eq (c : UInt8) : (jifAlpha c || c == Byte.underscore) = isNameStart c := by
  simp only [jifAlpha, jifUpper, jifLower, not_lt_eq_le]
  rfl

theorem jifAlnum_eq (c : UInt8) : (jifAlnum c || c == Byte.underscore) = isNameRest c := by
  rw [isNameRest, ← jifAlpha_eq, jifAlnum, show jifDigit c = isDigit c by
    simp only [jifDigit, not_lt_eq_le]; rfl]
  cases jifAlpha c <;> cases isDigit c <;> simp

/-! ## Two loops -/

section Loops

variable {L : Type} {mem : Memory} {m : Machine (State L) Event} {base len : Word}
  {Q : State L → Prop} {out : Option OutRecord} {w : Bytes}

/-- `.blank_loop`: over a line of blanks to `skip`, and at the first byte that
is not blank to `notBlank`. -/
theorem ends_blankLoop {loop next notBlank skip : L}
    (hloop : ∀ r out, m ⟨loop, r, out⟩ =
      goto (if jifSpace (mem r.rdx) then next else notBlank) { r with rax := movzx (mem r.rdx) } out
        [.load r.rdx])
    (hnext : ∀ r out, m ⟨next, r, out⟩ =
      goto (if r.rcx - 1 != 0 then loop else skip) { r with rdx := r.rdx + 1, rcx := r.rcx - 1 } out
        [.decRcx r.rcx])
    (hw : w ≠ []) {r : Regs} (hspan : Span mem base len r.rdx w)
    (hcount : r.rcx = BitVec.ofNat 64 w.length)
    (hexit : ∀ a c d, Ends m (InLine base len) Q
      ⟨if w.all isBlank then skip else notBlank, { r with rax := a, rcx := c, rdx := d }, out⟩) :
    Ends m (InLine base len) Q ⟨loop, r, out⟩ := by
  induction w generalizing r with
  | nil => exact absurd rfl hw
  | cons c w ih =>
      refine .step (hloop r out) (List.forall_mem_singleton.mpr hspan.load) ?_
      rw [hspan.head, jifSpace_eq]
      cases hb : isBlank c with
      | false =>
          simp only [List.all_cons, hb, Bool.false_and, Bool.false_eq_true, if_false] at hexit ⊢
          exact hexit (movzx c) r.rcx r.rdx
      | true =>
          simp only [List.all_cons, hb, Bool.true_and] at hexit
          refine .step (hnext _ out) (List.forall_mem_singleton.mpr (hcount ▸ hspan.count)) ?_
          simp only [hcount, hspan.count_tail]
          cases w with
          | nil => exact hexit _ _ _
          | cons d w =>
              refine ih (List.cons_ne_nil _ _) hspan.tail ?_ ?_
              · exact word_pred
              · intro a c' d'
                exact hexit a c' d'

/-- `.find_eq`: to `found` at the first `=`, or past the line with
`ENVFILE_ERR_NO_EQUALS`. -/
theorem ends_findEq {loop found ret : L}
    (hloop : ∀ r out, m ⟨loop, r, out⟩ =
      if mem r.rdx == Byte.equals then goto found r out [.load r.rdx]
      else if r.rcx - 1 != 0 then
        goto loop { r with rdx := r.rdx + 1, rcx := r.rcx - 1 } out [.load r.rdx, .decRcx r.rcx]
      else
        goto ret { r with rdx := r.rdx + 1, rcx := r.rcx - 1, rax := statusWord .errNoEquals } out
          [.load r.rdx, .decRcx r.rcx])
    (hw : w ≠ []) {r : Regs} (hspan : Span mem base len r.rdx w)
    (hcount : r.rcx = BitVec.ofNat 64 w.length)
    (hnone : Byte.equals ∉ w → ∀ c d, Ends m (InLine base len) Q
      ⟨ret, { r with rax := statusWord .errNoEquals, rcx := c, rdx := d }, out⟩)
    (hfound : ∀ k v, w = k ++ Byte.equals :: v → Byte.equals ∉ k → ∀ c, Ends m (InLine base len) Q
      ⟨found, { r with rcx := c, rdx := r.rdx + BitVec.ofNat 64 k.length }, out⟩) :
    Ends m (InLine base len) Q ⟨loop, r, out⟩ := by
  induction w generalizing r with
  | nil => exact absurd rfl hw
  | cons c w ih =>
      have hstep := hloop r out
      rw [hspan.head] at hstep
      by_cases hc : c = Byte.equals
      · subst hc
        have := hfound [] w rfl List.not_mem_nil r.rcx
        rw [List.length_nil, BitVec.add_zero] at this
        exact .step hstep (List.forall_mem_singleton.mpr hspan.load) this
      · rw [if_neg (by simpa using hc)] at hstep
        have hevents := List.forall_mem_cons.mpr
          ⟨hspan.load, List.forall_mem_singleton.mpr (hcount ▸ hspan.count)⟩
        rw [hcount, hspan.count_tail, ← hcount] at hstep
        cases w with
        | nil =>
            refine .step hstep hevents (hnone ?_ _ _)
            simpa using fun e => hc e.symm
        | cons d w =>
            refine .step hstep hevents (ih (List.cons_ne_nil _ _) hspan.tail ?_ ?_ ?_)
            · show r.rcx - 1 = _
              rw [hcount]
              exact word_pred
            · intro hmem c' d'
              refine hnone ?_ c' d'
              rw [List.mem_cons, not_or]
              exact ⟨fun e => hc e.symm, hmem⟩
            · intro k v hkv hk c'
              have := hfound (c :: k) v (by rw [hkv, List.cons_append])
                (by rw [List.mem_cons, not_or]; exact ⟨fun e => hc e.symm, hk⟩) c'
              rw [List.length_cons, ← word_add_succ] at this
              exact this

end Loops

end Envfile.Asm

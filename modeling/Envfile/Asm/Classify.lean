/-
# `Envfile.Asm.Classify` — what `backend.asm` makes of a line

`shellOutcome` and `nativeOutcome` are what the two functions compute, on byte
strings; `envfileParseShell_answers` and `envfileParseNative_answers` say that the
machines halt with that answer, loading only bytes of the line and never
wrapping a counter.

One line is left out: the shell function takes the CR off the line before it
looks for the `=`, and nothing stops the line that is only a CR from going on
with length 0.  There `find_eq` decrements a counter that is 0.
-/
import Envfile.Asm.Loops
import Envfile.C.Classify

namespace Envfile.Asm

open Machine

/-! ## The cascades -/

/-- The quoting rules of `.value_check`: NUL is one more byte that no unquoted
value may contain. -/
def unquoteNul (v : Bytes) : Except Code (Bytes × Quoting) :=
  if v.head? ≠ some Byte.dquote ∧ v.head? ≠ some Byte.squote ∧ Byte.nul ∈ v then
    .error .valueInvalidChar
  else unquote v

/-- `k=v` in shell format, in the order of `.found_eq` and after. -/
def shellAssignmentAsm (k v : Bytes) : Outcome :=
  match keyFault k with
  | some code => .rejected code
  | none =>
    if startsBlank v then .rejected .valueLeadingWhitespace
    else if !isName k then .rejected .keyInvalid
    else .ofValue k (unquoteNul v)

/-- `k=v` in native format. -/
def nativeAssignmentAsm (k v : Bytes) : Outcome :=
  if k = [] then .rejected .emptyKey
  else if Byte.nul ∈ v then .rejected .valueInvalidChar
  else .accepted k v .plain

/-- Blank lines do not end in a CR here. -/
def isSkippedAsm (line : Bytes) : Bool := line.all isBlank || line.head? == some Byte.hash

def shellOutcome (line : Bytes) : Outcome :=
  if isSkippedAsm line then .skipped
  else assignmentOutcome shellAssignmentAsm (trimCr line)

def nativeOutcome (line : Bytes) : Outcome :=
  if isSkippedAsm line then .skipped
  else assignmentOutcome nativeAssignmentAsm line

/-! ## The answer in registers -/

/-- A record with its offsets as pointers into the line at `base`. -/
def outRecord (base : Word) (record : C.EnvfileRecord) : OutRecord :=
  ⟨base + BitVec.ofNat 64 record.key, BitVec.ofNat 64 record.keyLen,
    base + BitVec.ofNat 64 record.value, BitVec.ofNat 64 record.valueLen,
    BitVec.ofNat 32 record.valueKind.toNat⟩

/-- `eax` is the status, and with `ENVFILE_OK` the record has been stored. -/
def Returns {L : Type} (base : Word) (answer : C.EnvfileStatus × C.EnvfileRecord) (t : State L) :
    Prop :=
  t.regs.rax = statusWord answer.1 ∧ (answer.1 = .ok → t.out = some (outRecord base answer.2))

/-- A function halts with the answer for the outcome `o`, its events in order. -/
abbrev Answers {L : Type} (m : Machine (State L) Event) (base len : Word) (o : Outcome) :
    State L → Prop :=
  Ends m (InLine base len) (Returns base (C.answer o))

section Fail

variable {mem : Memory} {base len : Word} {r : Regs} {out : Option OutRecord}

theorem answers_shellRet {o : Outcome} (hok : (C.answer o).1 ≠ .ok)
    (hrax : r.rax = statusWord (C.answer o).1) :
    Answers (envfileParseShell mem) base len o ⟨.ret, r, out⟩ :=
  .halt rfl ⟨hrax, fun h => absurd h hok⟩

theorem answers_nativeRet {o : Outcome} (hok : (C.answer o).1 ≠ .ok)
    (hrax : r.rax = statusWord (C.answer o).1) :
    Answers (envfileParseNative mem) base len o ⟨.ret, r, out⟩ :=
  .halt rfl ⟨hrax, fun h => absurd h hok⟩

theorem answers_shellFail {o : Outcome} {pc : ShellLabel} (status : C.EnvfileStatus)
    (hpc : envfileParseShell mem ⟨pc, r, out⟩ = shellFail status r out)
    (hstatus : (C.answer o).1 = status) (hok : status ≠ .ok) :
    Answers (envfileParseShell mem) base len o ⟨pc, r, out⟩ := by
  subst hstatus
  exact .step hpc (fun _ h => absurd h List.not_mem_nil) (answers_shellRet hok rfl)

theorem answers_nativeFail {o : Outcome} {pc : NativeLabel} (status : C.EnvfileStatus)
    (hpc : envfileParseNative mem ⟨pc, r, out⟩ = nativeFail status r out)
    (hstatus : (C.answer o).1 = status) (hok : status ≠ .ok) :
    Answers (envfileParseNative mem) base len o ⟨pc, r, out⟩ := by
  subst hstatus
  exact .step hpc (fun _ h => absurd h List.not_mem_nil) (answers_nativeRet hok rfl)

end Fail

theorem answers_shellOk {mem : Memory} {base len : Word} {r : Regs} {out : Option OutRecord}
    {k v : Bytes} {quoting : Quoting}
    (hrecord : r.record = outRecord base (C.recordOf k v quoting)) :
    Answers (envfileParseShell mem) base len (.accepted k v quoting) ⟨.ok, r, out⟩ :=
  .step rfl (fun _ h => absurd h List.not_mem_nil) (.halt rfl ⟨rfl, fun _ => congrArg some hrecord⟩)

/-! ## envfile_parse_shell from `.found_eq` on -/

/-- The registers once the key `k` and the raw value `v` are known. -/
structure Parsed (mem : Memory) (base len : Word) (k v : Bytes) (r : Regs) : Prop where
  span : Span mem base len base (k ++ Byte.equals :: v)
  rdi : r.rdi = base
  rbx : r.rbx = BitVec.ofNat 64 k.length
  r12 : r.r12 = base + BitVec.ofNat 64 (k.length + 1)
  r13 : r.r13 = BitVec.ofNat 64 v.length
  r9 : r.r9 = kindWord .plain

namespace Parsed

variable {mem : Memory} {base len : Word} {k v : Bytes} {r : Regs} {out : Option OutRecord}

theorem scratch (h : Parsed mem base len k v r) (a c d e : Word) :
    Parsed mem base len k v { r with rax := a, rcx := c, rdx := d, r11 := e } :=
  ⟨h.span, h.rdi, h.rbx, h.r12, h.r13, h.r9⟩

theorem value (h : Parsed mem base len k v r) : Span mem base len r.r12 v := by
  have := h.span.right.tail
  rw [BitVec.add_assoc, ← word_succ] at this
  rwa [h.r12]

theorem key (h : Parsed mem base len k v r) : Span mem base len r.rdi k := by
  have := h.span.left
  rwa [h.rdi]

theorem r13_eq_zero (h : Parsed mem base len k v r) : (r.r13 == 0) = v.isEmpty := by
  rw [h.r13]
  cases v with
  | nil => rfl
  | cons c v => exact beq_eq_false_iff_ne.mpr (word_succ_ne_zero h.value.length_lt)

theorem rbx_eq_zero (h : Parsed mem base len k v r) : (r.rbx == 0) = k.isEmpty := by
  rw [h.rbx]
  cases k with
  | nil => rfl
  | cons c k => exact beq_eq_false_iff_ne.mpr (word_succ_ne_zero h.key.length_lt)

theorem record_plain (h : Parsed mem base len k v r) :
    r.record = outRecord base (C.recordOf k v .plain) := by
  rw [Regs.record, h.rdi, h.rbx, h.r12, h.r13, h.r9]
  simp [outRecord, C.recordOf, C.fillRecord, C.EnvfileValueKind.ofQuoting, kindWord,
    C.EnvfileValueKind.toNat]

theorem record_quoted (h : Parsed mem base len k v r) (quoting : Quoting)
    (hq : quoting ≠ .plain) (inner : Bytes) (a c d e : Word) :
    Regs.record { r with
      rax := a, rcx := c, rdx := d, r11 := e
      r12 := r.r12 + 1
      r13 := r.r12 + 1 + BitVec.ofNat 64 inner.length - (r.r12 + 1)
      r9 := kindWord (.ofQuoting quoting) } = outRecord base (C.recordOf k inner quoting) := by
  show OutRecord.mk r.rdi r.rbx (r.r12 + 1)
    (r.r12 + 1 + BitVec.ofNat 64 inner.length - (r.r12 + 1)) _ = _
  rw [word_sub_left, h.rdi, h.rbx, h.r12, BitVec.add_assoc, ← word_succ]
  cases quoting with
  | plain => exact absurd rfl hq
  | single => simp [outRecord, C.recordOf, C.fillRecord, C.EnvfileValueKind.ofQuoting, kindWord,
      C.EnvfileValueKind.toNat]
  | double => simp [outRecord, C.recordOf, C.fillRecord, C.EnvfileValueKind.ofQuoting, kindWord,
      C.EnvfileValueKind.toNat]

theorem answers_unquotedScan {o : Outcome} {p : Word} {w : Bytes} (hw : w ≠ [])
    (hspan : Span mem base len p w)
    (hbad : w.any (fun c => c == 0 || isBadUnquoted c) = true →
      (C.answer o).1 = .errValueInvalidChar)
    (hok : w.any (fun c => c == 0 || isBadUnquoted c) = false → ∀ a c d,
      Answers (envfileParseShell mem) base len o
        ⟨.ok, { r with rax := a, rcx := c, rdx := d }, out⟩) (a : Word) :
    Answers (envfileParseShell mem) base len o
      ⟨.unquotedScan, { r with rax := a, rcx := BitVec.ofNat 64 w.length, rdx := p }, out⟩ := by
  induction w generalizing p a with
  | nil => exact absurd rfl hw
  | cons c w ih =>
      have hclass : (c == 0 || jifSpace c || c == Byte.squote || c == Byte.dquote
          || c == Byte.backslash) = (c == 0 || isBadUnquoted c) := by
        simp only [isBadUnquoted, jifSpace_eq, Bool.or_assoc]
      cases hc : c == 0 || isBadUnquoted c with
      | true =>
          refine .step (t := ⟨.badValue, _, _⟩) (if_pos ?_)
              (List.forall_mem_singleton.mpr hspan.load) ?_
          · show (mem p == 0 || jifSpace (mem p) || _ || _ || _) = true
            rw [hspan.head, hclass, hc]
          · refine answers_shellFail .errValueInvalidChar rfl (hbad ?_) (by decide)
            rw [List.any_cons, hc, Bool.true_or]
      | false =>
          refine .step (if_neg ?_)
              (List.forall_mem_cons.mpr ⟨hspan.load, List.forall_mem_singleton.mpr hspan.count⟩) ?_
          · show ¬ (mem p == 0 || jifSpace (mem p) || _ || _ || _) = true
            rw [hspan.head, hclass, hc]
            exact Bool.false_ne_true
          · simp only [hspan.count_tail]
            rw [List.any_cons, hc, Bool.false_or] at hbad hok
            cases w with
            | nil => exact hok rfl _ _ _
            | cons d w =>
                have := ih (List.cons_ne_nil _ _) hspan.tail hbad hok (movzx (mem p))
                rw [← word_pred] at this
                exact this

/-- `.find_close`, `q` being the quote: to `.unterm` without one, or to
`.found_close` at the first. -/
theorem answers_findClose {o : Outcome} {q : UInt8} {p : Word} {w : Bytes}
    (hspan : Span mem base len p w)
    (hnone : q ∉ w → ∀ c d, Answers (envfileParseShell mem) base len o
      ⟨.unterm, { r with r11 := movzx q, rcx := c, rdx := d }, out⟩)
    (hfound : ∀ u v, w = u ++ q :: v → q ∉ u → Answers (envfileParseShell mem) base len o
      ⟨.foundClose, { r with
        r11 := movzx q
        rcx := BitVec.ofNat 64 (v.length + 1)
        rdx := p + BitVec.ofNat 64 u.length }, out⟩) :
    Answers (envfileParseShell mem) base len o
      ⟨.findClose, { r with r11 := movzx q, rcx := BitVec.ofNat 64 w.length, rdx := p }, out⟩ := by
  induction w generalizing p with
  | nil =>
      exact .step rfl (List.forall_mem_nil _) (hnone List.not_mem_nil _ _)
  | cons c w ih =>
      have hcount : ¬ (BitVec.ofNat 64 (c :: w).length == 0) = true :=
        fun e => hspan.count (beq_iff_eq.mp e)
      have hstep : envfileParseShell mem ⟨.findClose, { r with
          r11 := movzx q, rcx := BitVec.ofNat 64 (c :: w).length, rdx := p }, out⟩ = _ :=
        if_neg hcount
      simp only [hspan.head, low_movzx] at hstep
      by_cases hc : c = q
      · subst hc
        rw [if_pos (beq_self_eq_true c)] at hstep
        have := hfound [] w rfl List.not_mem_nil
        rw [List.length_nil, BitVec.add_zero] at this
        exact .step hstep (List.forall_mem_singleton.mpr hspan.load) this
      · rw [if_neg (by simpa using hc)] at hstep
        refine .step hstep
            (List.forall_mem_cons.mpr ⟨hspan.load, List.forall_mem_singleton.mpr hspan.count⟩) ?_
        have := ih hspan.tail ?_ ?_
        · rw [← word_pred] at this
          exact this
        · intro hmem c' d'
          refine hnone ?_ c' d'
          rw [List.mem_cons, not_or]
          exact ⟨fun e => hc e.symm, hmem⟩
        · intro u v huv hu
          have := hfound (c :: u) v (by rw [huv, List.cons_append])
            (by rw [List.mem_cons, not_or]; exact ⟨fun e => hc e.symm, hu⟩)
          rw [List.length_cons, ← word_add_succ] at this
          exact this

theorem shell_foundClose (hcount : r.rcx = 1) :
    envfileParseShell mem ⟨.foundClose, r, out⟩ =
      if low r.r11 != Byte.squote then
        goto .quotedDouble
          { r with rcx := r.rcx - 1, r12 := r.r12 + 1, r13 := r.rdx - (r.r12 + 1) } out
          [.decRcx r.rcx]
      else
        goto .ok { r with
          rcx := r.rcx - 1, r12 := r.r12 + 1, r13 := r.rdx - (r.r12 + 1)
          r9 := kindWord .singleQuoted } out [.decRcx r.rcx] := by
  refine if_neg ?_
  show ¬ (r.rcx - 1 != 0) = true
  rw [hcount]
  exact Bool.false_ne_true

theorem answers_quoted {q : UInt8} (hq : q = Byte.dquote ∨ q = Byte.squote) {rest : Bytes}
    (h : Parsed mem base len k (q :: rest) r) (hrax : r.rax = movzx q) :
    Answers (envfileParseShell mem) base len (.ofValue k (unquote (q :: rest)))
      ⟨.quoted, r, out⟩ := by
  have hval := h.value
  have hquote : movzx (low r.rax) = movzx q := by rw [hrax, low_movzx]
  have hrest : r.r13 - 1 = BitVec.ofNat 64 rest.length := by
    rw [h.r13, List.length_cons, word_pred]
  refine .step rfl (List.forall_mem_singleton.mpr (h.r13 ▸ hval.count)) ?_
  rw [hquote, hrest]
  refine answers_findClose hval.tail ?_ ?_
  · -- no closing quote
    intro hmem c d
    rw [unquote_open hq hmem]
    rcases hq with rfl | rfl
    · exact .step rfl (List.forall_mem_nil _)
        (answers_shellFail .errDoubleQuoteUnterminated rfl rfl (by decide))
    · exact answers_shellFail .errSingleQuoteUnterminated rfl rfl (by decide)
  · rintro inner after rfl hinner
    have hcount : InLine base len (.decRcx (BitVec.ofNat 64 (after.length + 1))) :=
      hval.tail.right.count
    rw [unquote_quoted hq hinner]
    cases after with
    | cons a after =>
        -- something follows the closing quote
        have hne : (BitVec.ofNat 64 ((a :: after).length + 1) - 1 != 0) = true := by
          have := hval.tail.right.tail.count
          rw [word_pred]
          exact bne_iff_ne.mpr this
        rw [if_neg (List.cons_ne_nil _ _)]
        exact .step (if_pos hne) (List.forall_mem_singleton.mpr hcount)
          (answers_shellFail .errTrailingContent rfl rfl (by decide))
    | nil =>
        rw [if_pos rfl]
        rcases hq with rfl | rfl
        · refine .step (shell_foundClose rfl) (List.forall_mem_singleton.mpr hcount)
            (.step rfl (List.forall_mem_nil _) ?_)
          exact answers_shellOk (h.record_quoted .double (by rintro ⟨⟩) inner _ _ _ _)
        · refine .step (shell_foundClose rfl) (List.forall_mem_singleton.mpr hcount) ?_
          exact answers_shellOk (h.record_quoted .single (by rintro ⟨⟩) inner _ _ _ _)

theorem unquoteNul_quote {c : UInt8} (hq : c = Byte.dquote ∨ c = Byte.squote) (v : Bytes) :
    unquoteNul (c :: v) = unquote (c :: v) := by
  refine if_neg ?_
  rintro ⟨hd, hs, -⟩
  rcases hq with rfl | rfl
  · exact hd rfl
  · exact hs rfl

/-- In a value that does not, it is a byte like the others that may not be in
it. -/
theorem unquoteNul_plain {v : Bytes} (hd : v.head? ≠ some Byte.dquote)
    (hs : v.head? ≠ some Byte.squote) :
    unquoteNul v =
      if v.any (fun c => c == 0 || isBadUnquoted c) then .error .valueInvalidChar
      else .ok (v, .plain) := by
  by_cases hnul : Byte.nul ∈ v
  · have hany : v.any (fun c => c == 0 || isBadUnquoted c) = true :=
      List.any_eq_true.mpr ⟨Byte.nul, hnul, rfl⟩
    rw [unquoteNul, if_pos ⟨hd, hs, hnul⟩, if_pos hany]
  · have hany : v.any (fun c => c == 0 || isBadUnquoted c) = v.any isBadUnquoted := by
      rw [Bool.eq_iff_iff, List.any_eq_true, List.any_eq_true]
      refine exists_congr fun c => and_congr_right fun hc => ?_
      have hzero : (c == 0) = false := by
        rw [beq_eq_false_iff_ne]
        rintro rfl
        exact hnul hc
      rw [hzero, Bool.false_or]
    rw [unquoteNul, if_neg (fun h => hnul h.2.2), unquote_plain hd hs, hany]

theorem answers_valueCheck (h : Parsed mem base len k v r) :
    Answers (envfileParseShell mem) base len (.ofValue k (unquoteNul v))
      ⟨.valueCheck, r, out⟩ := by
  have hzero := h.r13_eq_zero
  cases v with
  | nil => exact .step (if_pos hzero) (List.forall_mem_nil _) (answers_shellOk h.record_plain)
  | cons c v =>
      have hval := h.value
      have hstep : envfileParseShell mem ⟨.valueCheck, r, out⟩ = _ :=
        if_neg (by rw [hzero]; exact Bool.false_ne_true)
      simp only [hval.head] at hstep
      by_cases hq : c = Byte.dquote ∨ c = Byte.squote
      · rw [if_pos (by simpa using hq)] at hstep
        rw [unquoteNul_quote hq]
        exact .step hstep (List.forall_mem_singleton.mpr hval.load)
            ((h.scratch _ _ _ _).answers_quoted hq rfl)
      · have hd : (c :: v).head? ≠ some Byte.dquote := fun e => hq (Or.inl (Option.some.inj e))
        have hs : (c :: v).head? ≠ some Byte.squote := fun e => hq (Or.inr (Option.some.inj e))
        rw [if_neg (by simpa using hq)] at hstep
        have hscan : ∀ a, Answers (envfileParseShell mem) base len
            (.ofValue k (unquoteNul (c :: v))) ⟨.unquotedScan, { r with
              rax := a, rcx := BitVec.ofNat 64 (c :: v).length, rdx := r.r12 }, out⟩ := by
          rw [unquoteNul_plain hd hs]
          refine answers_unquotedScan (List.cons_ne_nil _ _) hval ?_ ?_
          · intro hany
            rw [if_pos hany]
            rfl
          · intro hnone a c' d'
            rw [hnone, if_neg Bool.false_ne_true]
            exact answers_shellOk (h.scratch _ _ _ _).record_plain
        rw [← h.r13] at hscan
        exact .step hstep (List.forall_mem_singleton.mpr hval.load) (hscan (movzx c))

theorem answers_keyRestLoop {o : Outcome} {p : Word} {w : Bytes} (hspan : Span mem base len p w)
    (hbad : w.all isNameRest = false → (C.answer o).1 = .errKeyInvalid)
    (hok : w.all isNameRest = true → ∀ a c d, Answers (envfileParseShell mem) base len o
      ⟨.valueCheck, { r with rax := a, rcx := c, rdx := d }, out⟩) (a : Word) :
    Answers (envfileParseShell mem) base len o
      ⟨.keyRestLoop, { r with rax := a, rcx := BitVec.ofNat 64 w.length, rdx := p }, out⟩ := by
  induction w generalizing p a with
  | nil => exact .step rfl (List.forall_mem_nil _) (hok rfl _ _ _)
  | cons c w ih =>
      have hcount : ¬ (BitVec.ofNat 64 (c :: w).length == 0) = true :=
        fun e => hspan.count (beq_iff_eq.mp e)
      have hstep : envfileParseShell mem ⟨.keyRestLoop, { r with
          rax := a, rcx := BitVec.ofNat 64 (c :: w).length, rdx := p }, out⟩ = _ :=
        if_neg hcount
      simp only [hspan.head, jifAlnum_eq] at hstep
      cases hc : isNameRest c with
      | false =>
          rw [hc] at hstep
          refine .step hstep (List.forall_mem_singleton.mpr hspan.load)
            (answers_shellFail .errKeyInvalid rfl (hbad ?_) (by decide))
          rw [List.all_cons, hc, Bool.false_and]
      | true =>
          rw [hc] at hstep
          rw [List.all_cons, hc, Bool.true_and] at hbad hok
          refine .step hstep (List.forall_mem_singleton.mpr hspan.load)
              (.step rfl (List.forall_mem_singleton.mpr hspan.count) ?_)
          have := ih hspan.tail hbad hok (movzx c)
          rw [← word_pred] at this
          exact this

theorem answers_validateKey (hk : k ≠ []) (h : Parsed mem base len k v r) :
    Answers (envfileParseShell mem) base len
      (if !isName k then .rejected .keyInvalid else .ofValue k (unquoteNul v))
      ⟨.validateKey, r, out⟩ := by
  have hzero := h.rbx_eq_zero
  cases k with
  | nil => exact absurd rfl hk
  | cons c k =>
      have hkey := h.key
      have hstep : envfileParseShell mem ⟨.validateKey, r, out⟩ = _ :=
        if_neg (by rw [hzero]; exact Bool.false_ne_true)
      simp only [hkey.head, jifAlpha_eq] at hstep
      rw [isName]
      cases hc : isNameStart c with
      | false =>
          rw [hc] at hstep
          exact .step hstep (List.forall_mem_singleton.mpr hkey.load)
            (answers_shellFail .errKeyInvalid rfl rfl (by decide))
      | true =>
          have hrest : r.rbx - 1 = BitVec.ofNat 64 k.length := by
            rw [h.rbx, List.length_cons, word_pred]
          rw [hc] at hstep
          refine .step hstep (List.forall_mem_singleton.mpr hkey.load)
            (.step rfl (List.forall_mem_singleton.mpr (h.rbx ▸ hkey.count)) ?_)
          rw [hrest]
          refine answers_keyRestLoop hkey.tail ?_ ?_ _
          · intro hall
            rw [hall]
            rfl
          · intro hall a c' d'
            rw [hall]
            exact (h.scratch _ _ _ _).answers_valueCheck

theorem answers_checkValLead (hk : k ≠ []) (h : Parsed mem base len k v r) :
    Answers (envfileParseShell mem) base len
      (if startsBlank v then .rejected .valueLeadingWhitespace
        else if !isName k then .rejected .keyInvalid
        else .ofValue k (unquoteNul v))
      ⟨.checkValLead, r, out⟩ := by
  have hzero := h.r13_eq_zero
  cases v with
  | nil => exact .step (if_pos hzero) (List.forall_mem_nil _) (h.answers_validateKey hk)
  | cons c v =>
      have hval := h.value
      have hstep : envfileParseShell mem ⟨.checkValLead, r, out⟩ = _ :=
        if_neg (by rw [hzero]; exact Bool.false_ne_true)
      simp only [hval.head, jifSpace_eq] at hstep
      have hblank : startsBlank (c :: v) = isBlank c := rfl
      rw [hblank]
      cases hc : isBlank c with
      | true =>
          rw [hc] at hstep
          exact .step hstep (List.forall_mem_singleton.mpr hval.load)
            (answers_shellFail .errValueLeadingWhitespace rfl rfl (by decide))
      | false =>
          rw [hc] at hstep
          exact .step hstep (List.forall_mem_singleton.mpr hval.load)
            ((h.scratch _ _ _ _).answers_validateKey hk)

theorem answers_checkKeyTrail (hk : k ≠ []) (h : Parsed mem base len k v r) :
    Answers (envfileParseShell mem) base len
      (if endsBlank k then .rejected .keyTrailingWhitespace
        else if startsBlank v then .rejected .valueLeadingWhitespace
        else if !isName k then .rejected .keyInvalid
        else .ofValue k (unquoteNul v))
      ⟨.checkKeyTrail, r, out⟩ := by
  have hzero : (r.rbx == 0) = false := by
    rw [h.rbx_eq_zero]
    exact List.isEmpty_eq_false_iff.mpr hk
  have hstep : envfileParseShell mem ⟨.checkKeyTrail, r, out⟩ = _ :=
    if_neg (by rw [hzero]; exact Bool.false_ne_true)
  obtain ⟨u, c, rfl⟩ : ∃ u c, k = u ++ [c] := ⟨_, _, (List.dropLast_concat_getLast hk).symm⟩
  have hlast := h.key.right
  have haddr : r.rdi + r.rbx - 1 = r.rdi + BitVec.ofNat 64 u.length := by
    rw [h.rbx, List.length_append, List.length_singleton, word_succ, ← BitVec.add_assoc,
      BitVec.add_sub_cancel]
  simp only [haddr, hlast.head, jifSpace_eq] at hstep
  have hblank : endsBlank (u ++ [c]) = isBlank c := by simp [endsBlank]
  rw [hblank]
  cases hc : isBlank c with
  | true =>
      rw [hc] at hstep
      exact .step hstep (List.forall_mem_singleton.mpr hlast.load)
        (answers_shellFail .errKeyTrailingWhitespace rfl rfl (by decide))
  | false =>
      rw [hc] at hstep
      exact .step hstep (List.forall_mem_singleton.mpr hlast.load)
          ((h.scratch _ _ _ _).answers_checkValLead hk)

end Parsed

section Shell

variable {mem : Memory} {base len : Word} {r : Regs} {out : Option OutRecord} {line : Bytes}

theorem shellAssignmentAsm_of_start {k : Bytes} (hk : k ≠ []) (hs : startsBlank k = false)
    (v : Bytes) : shellAssignmentAsm k v =
      if endsBlank k then .rejected .keyTrailingWhitespace
      else if startsBlank v then .rejected .valueLeadingWhitespace
      else if !isName k then .rejected .keyInvalid
      else .ofValue k (unquoteNul v) := by
  rw [shellAssignmentAsm, keyFault, if_neg hk, if_neg (by rw [hs]; exact Bool.false_ne_true)]
  cases endsBlank k <;> rfl

/-- `.found_eq` and what follows it. -/
theorem answers_foundEq {k v : Bytes} (hspan : Span mem base len base (k ++ Byte.equals :: v))
    (hrdi : r.rdi = base) (hrdx : r.rdx = base + BitVec.ofNat 64 k.length)
    (hrsi : r.rsi = BitVec.ofNat 64 (k ++ Byte.equals :: v).length) :
    Answers (envfileParseShell mem) base len (shellAssignmentAsm k v) ⟨.foundEq, r, out⟩ := by
  have hkey : r.rdx - r.rdi = BitVec.ofNat 64 k.length := by
    rw [hrdx, hrdi, word_sub_left]
  have hvalue : r.rsi - (r.rdx - r.rdi) - 1 = BitVec.ofNat 64 v.length := by
    rw [hkey, hrsi, List.length_append, List.length_cons, BitVec.ofNat_add, word_sub_left,
      word_pred]
  have hstart : r.rdx + 1 = base + BitVec.ofNat 64 (k.length + 1) := by
    rw [hrdx, BitVec.add_assoc, ← word_succ]
  have hparsed : ∀ a, Parsed mem base len k v { r with
      rax := a
      rbx := r.rdx - r.rdi
      r13 := r.rsi - (r.rdx - r.rdi) - 1
      r12 := r.rdx + 1
      r9 := kindWord .plain } :=
    fun a => ⟨hspan, hrdi, hkey, hstart, hvalue, rfl⟩
  cases k with
  | nil =>
      refine .step (if_pos ?_) (List.forall_mem_nil _)
          (answers_shellFail .errEmptyKey rfl rfl (by decide))
      rw [hkey]
      rfl
  | cons c k =>
      have hfirst : Span mem base len r.rdi (c :: k) := hrdi ▸ hspan.left
      have hstep : envfileParseShell mem ⟨.foundEq, r, out⟩ = _ :=
        if_neg (fun e => hfirst.count (hkey ▸ beq_iff_eq.mp e))
      simp only [hfirst.head, jifSpace_eq] at hstep
      cases hc : isBlank c with
      | true =>
          rw [hc] at hstep
          refine .step hstep (List.forall_mem_singleton.mpr hfirst.load)
            (answers_shellFail .errKeyLeadingWhitespace rfl ?_ (by decide))
          rw [shellAssignmentAsm, keyFault, if_neg (List.cons_ne_nil _ _), if_pos (by exact hc)]
          rfl
      | false =>
          rw [hc] at hstep
          rw [shellAssignmentAsm_of_start (List.cons_ne_nil _ _) hc]
          exact .step hstep (List.forall_mem_singleton.mpr hfirst.load)
            ((hparsed (movzx c)).answers_checkKeyTrail (List.cons_ne_nil _ _))

theorem answers_scanEq (hspan : Span mem base len base line) (hline : line ≠ [])
    (hrdi : r.rdi = base) (hrsi : r.rsi = BitVec.ofNat 64 line.length) :
    Answers (envfileParseShell mem) base len (assignmentOutcome shellAssignmentAsm line)
      ⟨.scanEq, r, out⟩ := by
  refine .step rfl (List.forall_mem_nil _)
      (ends_findEq (fun r out => rfl) hline (hrdi ▸ hspan) hrsi ?_ ?_)
  · intro hmem c d
    rw [assignmentOutcome, splitEquals_none.mpr hmem]
    exact answers_shellRet (by rintro ⟨⟩) rfl
  · rintro k v rfl hk c
    rw [assignmentOutcome, splitEquals_append hk]
    exact answers_foundEq hspan hrdi (by rw [← hrdi]) hrsi

/-- `.not_blank` and what follows it: a comment, or the line less its CR. -/
theorem answers_notBlank (hspan : Span mem base len base line) (hline : line ≠ [])
    (hcr : line ≠ [Byte.cr]) (hrdi : r.rdi = base) (hrsi : r.rsi = BitVec.ofNat 64 line.length) :
    Answers (envfileParseShell mem) base len
      (if line.head? == some Byte.hash then .skipped
        else assignmentOutcome shellAssignmentAsm (trimCr line)) ⟨.notBlank, r, out⟩ := by
  have hhead : (line.head? == some Byte.hash) = (mem r.rdi == Byte.hash) := by
    rw [hspan.head? hline, hrdi]
    rfl
  have hload : InLine base len (.load r.rdi) := hrdi ▸ hspan.load_head hline
  rw [hhead]
  cases hhash : mem r.rdi == Byte.hash with
  | true =>
    exact .step (if_pos hhash) (List.forall_mem_singleton.mpr hload)
        (answers_shellFail .skip rfl rfl (by decide))
  | false =>
      obtain ⟨u, c, rfl⟩ : ∃ u c, line = u ++ [c] :=
        ⟨_, _, (List.dropLast_concat_getLast hline).symm⟩
      have hlast : Span mem base len (r.rdi + r.rsi - 1) [c] := by
        have := hspan.right
        rwa [hrdi, hrsi, List.length_append, List.length_singleton, word_succ,
          ← BitVec.add_assoc, BitVec.add_sub_cancel]
      have hevents := List.forall_mem_cons.mpr ⟨hload, List.forall_mem_singleton.mpr hlast.load⟩
      have hstep : envfileParseShell mem ⟨.notBlank, r, out⟩ = _ :=
        if_neg (by rw [hhash]; exact Bool.false_ne_true)
      simp only [hlast.head] at hstep
      by_cases hc : c = Byte.cr
      · subst hc
        have hu : u ≠ [] := by
          rintro rfl
          exact hcr rfl
        have hlen : r.rsi - 1 = BitVec.ofNat 64 u.length := by
          rw [hrsi, List.length_append, List.length_singleton, word_pred]
        rw [if_neg (by decide)] at hstep
        rw [trimCr_concat_cr]
        exact .step hstep hevents (answers_scanEq hspan.left hu hrdi hlen)
      · have htrim : trimCr (u ++ [c]) = u ++ [c] :=
          trimCr_of_getLast? (by simpa using hc)
        rw [if_pos (bne_iff_ne.mpr hc)] at hstep
        rw [htrim]
        exact .step hstep hevents (answers_scanEq hspan hline hrdi hrsi)

theorem envfileParseShell_answers (mem : Memory) (regs : Regs)
    (hcr : regs.line mem ≠ [Byte.cr]) :
    Answers (envfileParseShell mem) regs.rdi regs.rsi (shellOutcome (regs.line mem))
      (call .entry regs) := by
  have hspan : Span mem regs.rdi regs.rsi regs.rdi (regs.line mem) := Span.line ..
  have hzero := rsi_eq_zero mem regs
  by_cases hline : regs.line mem = []
  · rw [hline] at hzero ⊢
    exact .step (if_pos hzero) (List.forall_mem_nil _) (answers_shellFail .skip rfl rfl (by decide))
  · rw [List.isEmpty_eq_false_iff.mpr hline] at hzero
    refine .step (if_neg (by rw [hzero]; exact Bool.false_ne_true)) (List.forall_mem_nil _)
      (ends_blankLoop (fun r out => rfl) (fun r out => rfl) hline hspan (rsi_eq mem regs) ?_)
    intro a c d
    rw [shellOutcome, isSkippedAsm]
    cases (regs.line mem).all isBlank with
    | true => exact answers_shellFail .skip rfl rfl (by decide)
    | false =>
        rw [Bool.false_or]
        exact answers_notBlank hspan hline hcr rfl (rsi_eq mem regs)

end Shell

/-! ## envfile_parse_native -/

section Native

variable {mem : Memory} {base len : Word} {r : Regs} {out : Option OutRecord} {line : Bytes}

theorem answers_scan {o : Outcome} {p : Word} {w : Bytes} (hw : w ≠ [])
    (hspan : Span mem base len p w)
    (hnul : Byte.nul ∈ w → (C.answer o).1 = .errValueInvalidChar)
    (hok : Byte.nul ∉ w → ∀ a c d, Answers (envfileParseNative mem) base len o
      ⟨.write, { r with rax := a, rcx := c, rdx := d }, out⟩) (a : Word) :
    Answers (envfileParseNative mem) base len o
      ⟨.scan, { r with rax := a, rcx := BitVec.ofNat 64 w.length, rdx := p }, out⟩ := by
  induction w generalizing p a with
  | nil => exact absurd rfl hw
  | cons c w ih =>
      by_cases hc : c = Byte.nul
      · have hmem : Byte.nul ∈ c :: w := hc ▸ List.mem_cons_self
        refine .step (if_pos ?_) (List.forall_mem_singleton.mpr hspan.load)
          (answers_nativeFail .errValueInvalidChar rfl (hnul hmem) (by decide))
        show (mem p == 0) = true
        rw [hspan.head, hc]
        rfl
      · have hmem : Byte.nul ∈ c :: w ↔ Byte.nul ∈ w := by
          rw [List.mem_cons]
          exact or_iff_right fun e => hc e.symm
        rw [hmem] at hnul hok
        refine .step (if_neg ?_)
            (List.forall_mem_cons.mpr ⟨hspan.load, List.forall_mem_singleton.mpr hspan.count⟩) ?_
        · show ¬ (mem p == 0) = true
          rw [hspan.head]
          intro e
          exact hc (beq_iff_eq.mp e)
        · simp only [hspan.count_tail]
          cases w with
          | nil => exact hok List.not_mem_nil _ _ _
          | cons d w =>
              have := ih (List.cons_ne_nil _ _) hspan.tail hnul hok (movzx (mem p))
              rw [← word_pred] at this
              exact this

theorem answers_write {k v : Bytes} (hrecord : r.record = outRecord base (C.recordOf k v .plain)) :
    Answers (envfileParseNative mem) base len (.accepted k v .plain) ⟨.write, r, out⟩ :=
  .step rfl (List.forall_mem_nil _) (.halt rfl ⟨rfl, fun _ => congrArg some hrecord⟩)

theorem answers_foundEqNative {k v : Bytes}
    (hspan : Span mem base len base (k ++ Byte.equals :: v)) (hrdi : r.rdi = base)
    (hrdx : r.rdx = base + BitVec.ofNat 64 k.length)
    (hrsi : r.rsi = BitVec.ofNat 64 (k ++ Byte.equals :: v).length) :
    Answers (envfileParseNative mem) base len (nativeAssignmentAsm k v) ⟨.foundEq, r, out⟩ := by
  have hkey : r.rdx - r.rdi = BitVec.ofNat 64 k.length := by
    rw [hrdx, hrdi, word_sub_left]
  have hvalue : r.rsi - (r.rdx - r.rdi) - 1 = BitVec.ofNat 64 v.length := by
    rw [hkey, hrsi, List.length_append, List.length_cons, BitVec.ofNat_add, word_sub_left,
      word_pred]
  have hstart : r.rdi + (r.rdx - r.rdi) + 1 = base + BitVec.ofNat 64 (k.length + 1) := by
    rw [hkey, hrdi, BitVec.add_assoc, ← word_succ]
  have hstep : envfileParseNative mem ⟨.foundEq, r, out⟩ = _ := rfl
  have hparsed : ∀ a c d, Parsed mem base len k v { r with
      rax := a
      rcx := c
      rdx := d
      rbx := r.rdx - r.rdi
      r13 := r.rsi - (r.rdx - r.rdi) - 1
      r12 := r.rdi + (r.rdx - r.rdi) + 1
      r9 := kindWord .plain } :=
    fun _ _ _ => ⟨hspan, hrdi, hkey, hstart, hvalue, rfl⟩
  cases k with
  | nil =>
      have hzero : (r.rdx - r.rdi == 0) = true := by
        rw [hkey]
        rfl
      refine .step rfl (List.forall_mem_nil _) ?_
      simp only [hzero]
      exact answers_nativeFail .errEmptyKey rfl rfl (by decide)
  | cons c k =>
      have hne : (r.rdx - r.rdi == 0) = false := by
        rw [hkey]
        exact beq_eq_false_iff_ne.mpr (word_succ_ne_zero hspan.left.length_lt)
      have hval : Span mem base len (r.rdi + (r.rdx - r.rdi) + 1) v := (hparsed 0 0 0).value
      have hzero := (hparsed r.rax r.rcx r.rdx).r13_eq_zero
      rw [nativeAssignmentAsm, if_neg (List.cons_ne_nil _ _)]
      refine .step rfl (List.forall_mem_nil _) ?_
      simp only [hne]
      cases v with
      | nil =>
          refine .step (if_pos hzero) (List.forall_mem_nil _) ?_
          exact answers_write (hparsed _ _ _).record_plain
      | cons d v =>
          refine .step (if_neg (by rw [hzero]; exact Bool.false_ne_true)) (List.forall_mem_nil _) ?_
          have hscan : ∀ a, Answers (envfileParseNative mem) base len
              (if Byte.nul ∈ d :: v then .rejected .valueInvalidChar
                else .accepted (c :: k) (d :: v) .plain) ⟨.scan, { r with
                  rbx := r.rdx - r.rdi
                  r13 := r.rsi - (r.rdx - r.rdi) - 1
                  r12 := r.rdi + (r.rdx - r.rdi) + 1
                  r9 := kindWord .plain
                  rax := a
                  rcx := BitVec.ofNat 64 (d :: v).length
                  rdx := r.rdi + (r.rdx - r.rdi) + 1 }, out⟩ := by
            refine answers_scan (r := { r with
              rbx := r.rdx - r.rdi
              r13 := r.rsi - (r.rdx - r.rdi) - 1
              r12 := r.rdi + (r.rdx - r.rdi) + 1
              r9 := kindWord .plain }) (List.cons_ne_nil _ _) hval ?_ ?_
            · intro hmem
              rw [if_pos hmem]
              rfl
            · intro hmem a c' d'
              rw [if_neg hmem]
              exact answers_write (hparsed _ _ _).record_plain
          rw [← hvalue] at hscan
          exact hscan r.rax

theorem envfileParseNative_answers (mem : Memory) (regs : Regs) :
    Answers (envfileParseNative mem) regs.rdi regs.rsi (nativeOutcome (regs.line mem))
      (call .entry regs) := by
  have hspan : Span mem regs.rdi regs.rsi regs.rdi (regs.line mem) := Span.line ..
  have hzero := rsi_eq_zero mem regs
  by_cases hline : regs.line mem = []
  · rw [hline] at hzero ⊢
    exact .step (if_pos hzero) (List.forall_mem_nil _)
        (answers_nativeFail .skip rfl rfl (by decide))
  · rw [List.isEmpty_eq_false_iff.mpr hline] at hzero
    refine .step (if_neg (by rw [hzero]; exact Bool.false_ne_true)) (List.forall_mem_nil _)
      (ends_blankLoop (fun r out => rfl) (fun r out => rfl) hline hspan (rsi_eq mem regs) ?_)
    intro a c d
    have hhead : ((regs.line mem).head? == some Byte.hash) = (mem regs.rdi == Byte.hash) := by
      rw [hspan.head? hline]
      rfl
    rw [nativeOutcome, isSkippedAsm, hhead]
    cases (regs.line mem).all isBlank with
    | true => exact answers_nativeFail .skip rfl rfl (by decide)
    | false =>
        rw [Bool.false_or]
        cases hhash : mem regs.rdi == Byte.hash with
        | true =>
            exact .step (if_pos hhash) (List.forall_mem_singleton.mpr (hspan.load_head hline))
              (answers_nativeFail .skip rfl rfl (by decide))
        | false =>
            refine .step (if_neg (by rw [hhash]; exact Bool.false_ne_true))
              (List.forall_mem_singleton.mpr (hspan.load_head hline))
              (ends_findEq (fun r out => rfl) hline hspan (rsi_eq mem regs) ?_ ?_)
            · intro hmem c d
              show Answers _ _ _ (assignmentOutcome nativeAssignmentAsm _) _
              rw [assignmentOutcome, splitEquals_none.mpr hmem]
              exact answers_nativeRet (by rintro ⟨⟩) rfl
            · intro k v hkv hk c
              show Answers _ _ _ (assignmentOutcome nativeAssignmentAsm _) _
              rw [hkv] at hspan ⊢
              rw [assignmentOutcome, splitEquals_append hk]
              refine answers_foundEqNative hspan rfl rfl ?_
              rw [← hkv]
              exact rsi_eq mem regs

end Native

end Envfile.Asm

/-
# `Envfile.Asm.Interchange` — the assembly backend against `backend.c`

The two backends are one ABI, to be swapped at link time.  They answer alike
on most lines; `ShellDiffers` and `NativeDiffers` are the lines on which they
do not, and the theorems at the end say that these are all.

What separates them:

* the C test for a blank line ignores one trailing CR, the assembly's does not;
* the C functions look for a NUL in the whole line before anything else, the
  assembly in the value only, and late;
* for shell, the assembly takes a trailing CR off the line, C leaves it in the
  value; and C tests the key before it looks for a blank in front of the value.
-/
import Envfile.Asm.Safety

namespace Envfile.Asm

open Machine

/-- A call ends with the answer `answer`: the same status and, with
`ENVFILE_OK`, the same slices of the line and the same kind. -/
def Agrees {L : Type} (m : Machine (State L) Event) (base : Word)
    (answer : C.EnvfileStatus × C.EnvfileRecord) (start : State L) : Prop :=
  ∃ t, Reaches m start t ∧ m t = none ∧ Returns base answer t

/-! ## An answer is what registers and memory say -/

section Answers

variable {L : Type} {m : Machine (State L) Event} {regs : Regs} {start : State L} {mem : Memory}

theorem statusWord_inj {a b : C.EnvfileStatus} (h : statusWord a = statusWord b) : a = b := by
  revert h
  cases a <;> cases b <;> decide

theorem word_inj {a b n : Nat} (hn : n < 2 ^ 64) (ha : a ≤ n) (hb : b ≤ n)
    (h : BitVec.ofNat 64 a = BitVec.ofNat 64 b) : a = b := by
  have := congrArg BitVec.toNat h
  rwa [BitVec.toNat_ofNat, BitVec.toNat_ofNat, Nat.mod_eq_of_lt (by omega),
    Nat.mod_eq_of_lt (by omega)] at this

theorem kind_inj {a b : Quoting}
    (h : BitVec.ofNat 32 (C.EnvfileValueKind.ofQuoting a).toNat =
      BitVec.ofNat 32 (C.EnvfileValueKind.ofQuoting b).toNat) : a = b := by
  revert h
  cases a <;> cases b <;> decide

/-- Two outcomes that fit one line and that one state returns have one answer. -/
theorem answer_eq_of_returns {base : Word} {line : Bytes} {o o' : Outcome} {t : State L}
    (hline : line.length < 2 ^ 64) (hfits : Fits line o) (hfits' : Fits line o')
    (h : Returns base (C.answer o) t) (h' : Returns base (C.answer o') t) :
    C.answer o = C.answer o' := by
  have hstatus : (C.answer o).1 = (C.answer o').1 := statusWord_inj (h.1.symm.trans h'.1)
  cases o with
  | skipped =>
      cases o' with
      | skipped => rfl
      | rejected code => cases code <;> cases hstatus
      | accepted => cases hstatus
  | rejected code =>
      cases o' with
      | skipped => cases code <;> cases hstatus
      | rejected code' => exact Prod.ext hstatus rfl
      | accepted => cases code <;> cases hstatus
  | accepted key value quoting =>
      cases o' with
      | skipped => cases hstatus
      | rejected code => cases code <;> cases hstatus
      | accepted key' value' quoting' =>
          have hrec := Option.some.inj ((h.2 rfl).symm.trans (h'.2 rfl))
          have hf : key.length + _ + value.length ≤ _ := hfits
          have hf' : key'.length + _ + value'.length ≤ _ := hfits'
          have hkey : key.length = key'.length :=
            word_inj hline (by omega) (by omega) (congrArg OutRecord.keyLen hrec)
          have hlen : value.length = value'.length :=
            word_inj hline (by omega) (by omega) (congrArg OutRecord.valueLen hrec)
          have hquoting : quoting = quoting' := kind_inj (congrArg OutRecord.valueKind hrec)
          subst hquoting
          show (C.EnvfileStatus.ok, C.recordOf ..) = (C.EnvfileStatus.ok, C.recordOf ..)
          rw [C.recordOf, C.recordOf, hkey, hlen]

/-- A call that answers one outcome agrees with another exactly when both have
one answer. -/
theorem agrees_iff {o o' : Outcome} (h : Answers m regs.rdi regs.rsi o start)
    (hfits : Fits (regs.line mem) o) (hfits' : Fits (regs.line mem) o') :
    Agrees m regs.rdi (C.answer o') start ↔ C.answer o = C.answer o' := by
  have hline : (regs.line mem).length < 2 ^ 64 := by
    rw [Regs.line, length_loadBytes]
    exact regs.rsi.isLt
  constructor
  · rintro ⟨t, ht, hnone, hreturns⟩
    exact answer_eq_of_returns hline hfits hfits' (h.of_reaches ht hnone) hreturns
  · intro heq
    obtain ⟨t, ht, hnone, hreturns⟩ := h.halts
    exact ⟨t, ht, hnone, heq ▸ hreturns⟩

end Answers

/-! ## Where they differ -/

/-- Blanks and one CR. -/
def BlankCr (line : Bytes) : Prop :=
  ∃ blanks, line = blanks ++ [Byte.cr] ∧ blanks.all isBlank = true

/-- A value the shell format accepts. -/
inductive ShellValue : Bytes → Prop
  | plain {v : Bytes} (h : v.any isBadUnquoted = false) : ShellValue v
  | quoted {q : UInt8} {inner : Bytes} (hq : q = Byte.dquote ∨ q = Byte.squote) (h : q ∉ inner) :
      ShellValue (q :: (inner ++ [q]))

/-- A NUL that C reports and the assembly does not: one outside an unquoted
value of a shell name. -/
def NulShell (line : Bytes) : Prop :=
  isSkipped line = false ∧ Byte.nul ∈ line ∧
    ¬ ∃ k v, line = k ++ Byte.equals :: v ∧ isName k = true ∧ startsBlank v = false ∧
      v.head? ≠ some Byte.dquote ∧ v.head? ≠ some Byte.squote

/-- An assignment the shell format accepts, and a CR. -/
def AcceptedCr (line : Bytes) : Prop :=
  Byte.nul ∉ line ∧
    ∃ k v, line = k ++ Byte.equals :: (v ++ [Byte.cr]) ∧ isName k = true ∧ ShellValue v

def ShellDiffers (line : Bytes) : Prop :=
  BlankCr line ∨ NulShell line ∨ C.KeyAndValue line ∨ AcceptedCr line

/-- A NUL that C reports and the assembly does not: one in a line without a key
in front of an `=`, or in the key alone. -/
def NulNative (line : Bytes) : Prop :=
  isSkipped line = false ∧ Byte.nul ∈ line ∧
    ¬ ∃ k v, line = k ++ Byte.equals :: v ∧ Byte.equals ∉ k ∧ k ≠ [] ∧ Byte.nul ∈ v

def NativeDiffers (line : Bytes) : Prop := BlankCr line ∨ NulNative line

/-! ## Lines that are passed over -/

section Skipped

variable {line k v : Bytes}

/-- A run of blanks and a CR is blank for C only. -/
theorem skipped_of_blankCr (h : BlankCr line) :
    isSkipped line = true ∧ isSkippedAsm line = false ∧ Byte.equals ∉ line ∧
      Byte.equals ∉ trimCr line := by
  obtain ⟨blanks, rfl, hall⟩ := h
  have hblank := List.all_eq_true.mp hall
  have hhead : ((blanks ++ [Byte.cr]).head? == some Byte.hash) = false := by
    cases blanks with
    | nil => rfl
    | cons c w =>
        have hc := hblank c List.mem_cons_self
        refine beq_eq_false_iff_ne.mpr ?_
        intro e
        rw [Option.some.inj e] at hc
        exact absurd hc (by decide)
  have hequals : Byte.equals ∉ blanks := fun hm => absurd (hblank _ hm) (by decide)
  refine ⟨?_, ?_, ?_, ?_⟩
  · rw [isSkipped, isBlankLine, trimCr_concat_cr, hall, Bool.true_or]
  · rw [isSkippedAsm, hhead, List.all_append, Bool.or_false]
    exact Bool.and_eq_false_imp.mpr fun _ => rfl
  · rw [List.mem_append, not_or]
    exact ⟨hequals, by decide⟩
  · rwa [trimCr_concat_cr]

theorem isSkippedAsm_eq (h : ¬ BlankCr line) : isSkippedAsm line = isSkipped line := by
  rw [isSkippedAsm, isSkipped, isBlankLine]
  rcases cr_cases line with ⟨t, rfl⟩ | hcr
  · have ht : t.all isBlank = false := by
      rw [Bool.eq_false_iff]
      intro e
      exact h ⟨t, rfl, e⟩
    rw [trimCr_concat_cr, ht, List.all_append, ht, Bool.false_and]
  · rw [trimCr_of_getLast? hcr]

theorem mem_trimCr {c : UInt8} (hc : c ≠ Byte.cr) {s : Bytes} : c ∈ trimCr s ↔ c ∈ s := by
  rcases cr_cases s with ⟨t, rfl⟩ | h
  · rw [trimCr_concat_cr, List.mem_append, List.mem_singleton]
    exact (or_iff_left hc).symm
  · rw [trimCr_of_getLast? h]

theorem head?_trimCr {c : UInt8} (hc : c ≠ Byte.cr) {s : Bytes} :
    (trimCr s).head? = some c ↔ s.head? = some c := by
  rcases cr_cases s with ⟨t, rfl⟩ | h
  · rw [trimCr_concat_cr]
    cases t with
    | nil => simpa using fun e => hc e.symm
    | cons d t => rfl
  · rw [trimCr_of_getLast? h]

theorem startsBlank_iff {s : Bytes} :
    startsBlank s = true ↔ s.head? = some Byte.space ∨ s.head? = some Byte.tab := by
  cases s with
  | nil => exact ⟨by rintro ⟨⟩, by rintro (h | h) <;> cases h⟩
  | cons c s =>
      show isBlank c = true ↔ some c = _ ∨ some c = _
      rw [isBlank_iff, Option.some.injEq, Option.some.injEq]

theorem startsBlank_trimCr (s : Bytes) : startsBlank (trimCr s) = startsBlank s := by
  rw [Bool.eq_iff_iff, startsBlank_iff, startsBlank_iff, head?_trimCr (by decide),
    head?_trimCr (by decide)]

end Skipped

/-! ## The value of an accepted line -/

theorem unquote_isOk_iff {v : Bytes} : (∃ p, unquote v = .ok p) ↔ ShellValue v := by
  constructor
  · rintro ⟨p, hp⟩
    rcases value_shape v with ⟨hd, hs⟩ | ⟨q, rest, rfl, hq, hr⟩ | ⟨q, inner, after, rfl, hq, hi⟩
    · rw [unquote_plain hd hs] at hp
      split at hp
      · cases hp
      · exact .plain (Bool.not_eq_true _ ▸ ‹¬ v.any isBadUnquoted = true›)
    · rw [unquote_open hq hr] at hp
      cases hp
    · rw [unquote_quoted hq hi] at hp
      split at hp
      · subst ‹after = []›
        exact .quoted hq hi
      · cases hp
  · rintro (⟨h⟩ | ⟨hq, h⟩)
    · refine ⟨(v, .plain), ?_⟩
      have hhead : ∀ q, isBadUnquoted q = true → v.head? ≠ some q := by
        intro q hq he
        have := List.any_eq_false.mp h q (List.mem_of_mem_head? he)
        exact this hq
      rw [unquote_plain (hhead _ (by decide)) (hhead _ (by decide)), h]
      rfl
    · exact ⟨_, (unquote_quoted hq h []).trans (if_pos rfl)⟩

/-- A CR after a value: what was accepted is accepted with the CR or rejected
for what follows the quote, and what was rejected stays so. -/
theorem unquote_concat_cr (v : Bytes) :
    unquote (v ++ [Byte.cr]) =
      match unquote v with
      | .error code => .error code
      | .ok (w, .plain) => .ok (w ++ [Byte.cr], .plain)
      | .ok _ => .error .trailingContent := by
  rcases value_shape v with ⟨hd, hs⟩ | ⟨q, rest, rfl, hq, hr⟩ | ⟨q, inner, after, rfl, hq, hi⟩
  · have hhead : ∀ q, q ≠ Byte.cr → v.head? ≠ some q → (v ++ [Byte.cr]).head? ≠ some q := by
      intro q hq hne
      rwa [ne_eq, ← head?_trimCr hq, trimCr_concat_cr]
    have hany : (v ++ [Byte.cr]).any isBadUnquoted = v.any isBadUnquoted := by
      rw [List.any_append]
      exact Bool.or_false _
    rw [unquote_plain hd hs, unquote_plain (hhead _ (by decide) hd) (hhead _ (by decide) hs), hany]
    cases v.any isBadUnquoted <;> rfl
  · have hr' : q ∉ rest ++ [Byte.cr] := by
      rw [List.mem_append, not_or]
      refine ⟨hr, ?_⟩
      rcases hq with rfl | rfl <;> decide
    rw [List.cons_append, unquote_open hq hr, unquote_open hq hr']
  · rw [List.cons_append, List.append_assoc, List.cons_append, unquote_quoted hq hi,
      unquote_quoted hq hi]
    cases after with
    | nil => rcases hq with rfl | rfl <;> rfl
    | cons a after => rfl

/-! ## The shell functions -/

section ShellAnswer

variable {line k v : Bytes}

theorem answer_shellValue (k v : Bytes) :
    C.answer (.ofValue k (unquote (trimCr v))) = C.answer (.ofValue k (unquote v)) ↔
      ¬ ∃ w, v = w ++ [Byte.cr] ∧ ShellValue w := by
  rcases cr_cases v with ⟨w, rfl⟩ | hcr
  · have hone : (∃ w', w ++ [Byte.cr] = w' ++ [Byte.cr] ∧ ShellValue w') ↔ ShellValue w := by
      constructor
      · rintro ⟨w', he, hw'⟩
        rwa [List.append_cancel_right he]
      · intro h
        exact ⟨w, rfl, h⟩
    rw [hone, trimCr_concat_cr, unquote_concat_cr, ← unquote_isOk_iff]
    cases hu : unquote w with
    | error code =>
        refine ⟨fun _ => ?_, fun _ => rfl⟩
        rintro ⟨p, hp⟩
        cases hp
    | ok p =>
        refine ⟨fun h => ?_, fun h => absurd ⟨p, rfl⟩ h⟩
        obtain ⟨value, quoting⟩ := p
        cases quoting with
        | plain =>
            have := congrArg (fun a => a.2.valueLen) h
            exact absurd this (by simp [C.answer, Outcome.ofValue, C.recordOf, C.fillRecord])
        | single => cases congrArg Prod.fst h
        | double => cases congrArg Prod.fst h
  · have hnone : ¬ ∃ w, v = w ++ [Byte.cr] ∧ ShellValue w := by
      rintro ⟨w, rfl, -⟩
      exact hcr List.getLast?_concat
    rw [trimCr_of_getLast? hcr]
    exact ⟨fun _ => hnone, fun _ => rfl⟩

theorem ShellValue.not_startsBlank (h : ShellValue v) : startsBlank v = false := by
  cases h with
  | plain h =>
      rw [Bool.eq_false_iff]
      intro hb
      rcases startsBlank_iff.mp hb with he | he
      · exact List.any_eq_false.mp h _ (List.mem_of_mem_head? he) rfl
      · exact List.any_eq_false.mp h _ (List.mem_of_mem_head? he) rfl
  | quoted hq _ => rcases hq with rfl | rfl <;> rfl

theorem answer_shellAssignment (k v : Bytes) :
    C.answer (shellAssignment k (trimCr v)) = C.answer (C.shellAssignmentC k v) ↔
      ¬ ((keyFault k = none ∧ isName k = false ∧ startsBlank v = true) ∨
        (isName k = true ∧ ∃ w, v = w ++ [Byte.cr] ∧ ShellValue w)) := by
  rw [shellAssignment, C.shellAssignmentC, startsBlank_trimCr]
  cases hname : isName k with
  | true =>
      rw [keyFault_of_isName hname]
      cases hblank : startsBlank v with
      | true =>
          refine ⟨fun _ => ?_, fun _ => rfl⟩
          rintro (⟨-, h, -⟩ | ⟨-, w, rfl, hw⟩)
          · cases h
          · rw [← startsBlank_trimCr, trimCr_concat_cr, hw.not_startsBlank] at hblank
            cases hblank
      | false =>
          refine (answer_shellValue k v).trans (not_congr ⟨fun h => Or.inr ⟨rfl, h⟩, ?_⟩)
          rintro (⟨-, h, -⟩ | ⟨-, h⟩)
          · cases h
          · exact h
  | false =>
      have hno : ¬ (false = true ∧ ∃ w, v = w ++ [Byte.cr] ∧ ShellValue w) :=
        fun h => by cases h.1
      rw [or_iff_left hno]
      cases hfault : keyFault k with
      | some code => exact ⟨fun _ h => (by cases h.1), fun _ => rfl⟩
      | none =>
          cases startsBlank v with
          | true => exact ⟨fun h => (by cases congrArg Prod.fst h),
              fun h => absurd ⟨rfl, rfl, rfl⟩ h⟩
          | false => exact ⟨fun _ h => (by cases h.2.2), fun _ => rfl⟩

theorem unquoteNul_of_nulFree (h : Byte.nul ∉ v) : unquoteNul v = unquote v :=
  if_neg fun hc => h hc.2.2

theorem unquoteNul_invalid_iff (h : Byte.nul ∈ v) :
    unquoteNul v = .error .valueInvalidChar ↔
      v.head? ≠ some Byte.dquote ∧ v.head? ≠ some Byte.squote := by
  constructor
  · intro he
    by_contra hq
    rw [unquoteNul, if_neg (fun hc => hq ⟨hc.1, hc.2.1⟩)] at he
    rcases value_shape v with hplain | ⟨q, rest, rfl, hq, hr⟩ | ⟨q, inner, after, rfl, hq, hi⟩
    · exact hq hplain
    · rw [unquote_open hq hr] at he
      rcases hq with rfl | rfl <;> exact absurd (Except.error.inj he) (by decide)
    · rw [unquote_quoted hq hi] at he
      split at he
      · cases he
      · exact absurd (Except.error.inj he) (by decide)
  · rintro ⟨hd, hs⟩
    exact if_pos ⟨hd, hs, h⟩

theorem unquoteNul_error {code : Code} (h : unquoteNul v = .error code) :
    code = .valueInvalidChar ∨ code = .trailingContent ∨ code = .doubleQuoteUnterminated ∨
      code = .singleQuoteUnterminated := by
  rw [unquoteNul] at h
  split at h
  · exact Or.inl (Except.error.inj h).symm
  · exact unquote_error h

theorem answer_shell_nul (hmem : Byte.nul ∈ k ++ Byte.equals :: v) :
    (C.answer (shellAssignmentAsm k v)).1 = .errValueInvalidChar ↔
      isName k = true ∧ startsBlank v = false ∧ v.head? ≠ some Byte.dquote ∧
        v.head? ≠ some Byte.squote := by
  rw [shellAssignmentAsm]
  cases hname : isName k with
  | false =>
      refine ⟨fun h => ?_, fun h => by cases h.1⟩
      cases hfault : keyFault k with
      | some code =>
          rw [hfault] at h
          rcases keyFault_code hfault with rfl | rfl | rfl <;> cases h
      | none =>
          rw [hfault] at h
          cases hblank : startsBlank v <;> rw [hblank] at h <;> cases h
  | true =>
      rw [keyFault_of_isName hname]
      have hnul : Byte.nul ∈ v := by
        rcases List.mem_append.mp hmem with h | h
        · exact absurd h (nul_not_mem_of_isName hname)
        · exact (List.mem_cons.mp h).resolve_left (by decide)
      cases hblank : startsBlank v with
      | true => exact ⟨by rintro ⟨⟩, fun h => by cases h.2.1⟩
      | false =>
          have hvalue : (C.answer (.ofValue k (unquoteNul v))).1 = .errValueInvalidChar ↔
              unquoteNul v = .error .valueInvalidChar := by
            cases hu : unquoteNul v with
            | ok p => exact ⟨by rintro ⟨⟩, by rintro ⟨⟩⟩
            | error code =>
                refine ⟨fun h => ?_, fun h => Except.error.inj h ▸ rfl⟩
                rcases unquoteNul_error hu with rfl | rfl | rfl | rfl
                · rfl
                all_goals cases h
          refine hvalue.trans ((unquoteNul_invalid_iff hnul).trans ?_)
          exact ⟨fun h => ⟨rfl, rfl, h⟩, fun h => h.2.2⟩

theorem answer_invalid_iff {o : Outcome} :
    C.answer o = C.answer (.rejected .valueInvalidChar) ↔
      (C.answer o).1 = .errValueInvalidChar := by
  refine ⟨fun h => congrArg Prod.fst h, fun h => ?_⟩
  cases o with
  | rejected code => exact Prod.ext h rfl
  | skipped => cases h
  | accepted => cases h

theorem answer_shell_of_nul (hskip : isSkipped line = false) (hnul : Byte.nul ∈ line) :
    C.answer (assignmentOutcome shellAssignmentAsm (trimCr line)) =
      C.answer (.rejected .valueInvalidChar) ↔ ¬ NulShell line := by
  rw [answer_invalid_iff]
  have hdiffers : ¬ NulShell line ↔ ∃ k v, line = k ++ Byte.equals :: v ∧ isName k = true ∧
      startsBlank v = false ∧ v.head? ≠ some Byte.dquote ∧ v.head? ≠ some Byte.squote := by
    rw [NulShell, not_and, not_and, not_not]
    exact ⟨fun h => h hskip hnul, fun h _ _ => h⟩
  rw [hdiffers]
  rcases line_shape line with ⟨hno, -⟩ | ⟨k, v, rfl, hk, -⟩
  · rw [assignmentOutcome, splitEquals_none.mpr (mt (mem_trimCr (by decide)).mp hno)]
    refine ⟨by rintro ⟨⟩, ?_⟩
    rintro ⟨k, v, rfl, -⟩
    exact absurd (List.mem_append_right k List.mem_cons_self) hno
  · have hmem : Byte.nul ∈ k ++ Byte.equals :: trimCr v := by
      rwa [← trimCr_assignment, mem_trimCr (by decide)]
    rw [trimCr_assignment, assignmentOutcome, splitEquals_append hk]
    refine (answer_shell_nul hmem).trans ?_
    rw [startsBlank_trimCr, ne_eq, ne_eq, head?_trimCr (by decide), head?_trimCr (by decide)]
    constructor
    · intro h
      exact ⟨k, v, rfl, h⟩
    · rintro ⟨k', v', he, hname, hv⟩
      obtain ⟨rfl, rfl⟩ := split_unique hk (equals_not_mem_of_isName hname) he
      exact ⟨hname, hv⟩

theorem answer_shell_of_nulFree (hskip : isSkipped line = false) (hnul : Byte.nul ∉ line) :
    C.answer (assignmentOutcome shellAssignmentAsm (trimCr line)) =
      C.answer (assignmentOutcome C.shellAssignmentC line) ↔
        ¬ (C.KeyAndValue line ∨ AcceptedCr line) := by
  rcases line_shape line with ⟨hno, hsplit⟩ | ⟨k, v, rfl, hk, hsplit⟩
  · rw [assignmentOutcome, assignmentOutcome, hsplit,
      splitEquals_none.mpr (mt (mem_trimCr (by decide)).mp hno)]
    refine ⟨fun _ => ?_, fun _ => rfl⟩
    rintro (⟨-, -, k, v, rfl, -⟩ | ⟨-, k, v, rfl, -⟩)
    · exact hno (List.mem_append_right k List.mem_cons_self)
    · exact hno (List.mem_append_right k List.mem_cons_self)
  · have hvalue : Byte.nul ∉ trimCr v := by
      rw [mem_trimCr (by decide)]
      intro h
      exact hnul (List.mem_append_right k (List.mem_cons_of_mem _ h))
    have hasm : shellAssignmentAsm k (trimCr v) = shellAssignment k (trimCr v) := by
      rw [shellAssignmentAsm, unquoteNul_of_nulFree hvalue]
      rfl
    rw [trimCr_assignment, assignmentOutcome, assignmentOutcome, hsplit, splitEquals_append hk]
    show C.answer (shellAssignmentAsm k (trimCr v)) = C.answer (C.shellAssignmentC k v) ↔ _
    rw [hasm, answer_shellAssignment]
    refine not_congr (or_congr ?_ ?_)
    · constructor
      · intro h
        exact ⟨hskip, hnul, k, v, rfl, hk, h⟩
      · rintro ⟨-, -, k', v', he, hk', h⟩
        obtain ⟨rfl, rfl⟩ := split_unique hk hk' he
        exact h
    · constructor
      · rintro ⟨hname, w, rfl, hw⟩
        exact ⟨hnul, k, w, rfl, hname, hw⟩
      · rintro ⟨-, k', w, he, hname, hw⟩
        obtain ⟨rfl, rfl⟩ := split_unique hk (equals_not_mem_of_isName hname) he
        exact ⟨hname, w, rfl, hw⟩

theorem answer_shell_iff (hline : ¬ BlankCr line) :
    C.answer (shellOutcome line) = C.answer (C.shellOutcome line) ↔ ¬ ShellDiffers line := by
  have hskip := isSkippedAsm_eq hline
  rw [shellOutcome, C.shellOutcome, C.lineOutcomeC, hskip]
  cases hs : isSkipped line with
  | true =>
      refine ⟨fun _ => ?_, fun _ => rfl⟩
      rintro (h | h | h | h)
      · exact hline h
      · cases hs.symm.trans h.1
      · cases hs.symm.trans h.1
      · obtain ⟨-, k, v, rfl, hk, -⟩ := h
        rw [not_skipped_of_isName hk] at hs
        cases hs
  | false =>
      rw [if_neg Bool.false_ne_true, if_neg Bool.false_ne_true]
      by_cases hnul : Byte.nul ∈ line
      · rw [if_pos hnul, answer_shell_of_nul hs hnul]
        refine not_congr ⟨fun h => Or.inr (Or.inl h), ?_⟩
        rintro (h | h | h | h)
        · exact absurd h hline
        · exact h
        · exact absurd hnul h.2.1
        · exact absurd hnul h.1
      · rw [if_neg hnul]
        refine (answer_shell_of_nulFree hs hnul).trans (not_congr ⟨fun h => Or.inr (Or.inr h), ?_⟩)
        rintro (h | h | h)
        · exact absurd h hline
        · exact absurd h.2.1 hnul
        · exact h

theorem answer_shell_of_blankCr (hline : BlankCr line) :
    C.answer (shellOutcome line) ≠ C.answer (C.shellOutcome line) := by
  obtain ⟨hskip, hskipAsm, -, hno⟩ := skipped_of_blankCr hline
  rw [shellOutcome, C.shellOutcome, C.lineOutcomeC, hskip, hskipAsm, if_neg Bool.false_ne_true,
    if_pos rfl, assignmentOutcome, splitEquals_none.mpr hno]
  intro h
  cases congrArg Prod.fst h

end ShellAnswer

/-! ## A single CR -/

/-- Past the blanks: the function cannot return `ENVFILE_SKIP` any more. -/
def PastBlanks (s : State ShellLabel) : Prop :=
  match s.pc with
  | .entry | .blankLoop | .blankNext | .notBlank | .skip => False
  | .ret => s.regs.rax ≠ statusWord .skip
  | _ => True

theorem pastBlanks_ret {r : Regs} {out : Option OutRecord} {status : C.EnvfileStatus}
    (hr : r.rax = statusWord status) (hstatus : status ≠ .skip) : PastBlanks ⟨.ret, r, out⟩ := by
  show r.rax ≠ _
  rw [hr]
  intro h
  exact hstatus (statusWord_inj h)

theorem pastBlanks_step {mem : Memory} (s t : State ShellLabel) (es : List Event)
    (h : envfileParseShell mem s = some (t, es)) (hs : PastBlanks s) : PastBlanks t := by
  obtain ⟨pc, r, out⟩ := s
  cases pc
  case entry | blankLoop | blankNext | notBlank | skip => exact absurd hs id
  case ret => cases h
  -- every other label: each way out of it names the next label or a status
  all_goals
    simp only [envfileParseShell, goto, shellFail] at h
    repeat' split at h
    all_goals
      obtain ⟨rfl, -⟩ := Prod.mk.inj (Option.some.inj h)
      first
        | exact trivial
        | exact pastBlanks_ret rfl (by rintro ⟨⟩)

theorem pc_of_halted {mem : Memory} {t : State ShellLabel} (h : envfileParseShell mem t = none) :
    t.pc = .ret := by
  obtain ⟨pc, r, out⟩ := t
  cases pc
  case ret => rfl
  all_goals
    simp only [envfileParseShell, goto, shellFail] at h
    repeat' split at h
    all_goals cases h

theorem shell_not_skips {mem : Memory} {regs : Regs} (h : regs.line mem = [Byte.cr])
    {t : State ShellLabel} (ht : Reaches (envfileParseShell mem) (call .entry regs) t)
    (hnone : envfileParseShell mem t = none) : t.regs.rax ≠ statusWord .skip := by
  obtain ⟨r, -, -, hreaches⟩ := shell_reaches_findEq h
  have hpast : PastBlanks t := (ht.halted hnone hreaches).invariant pastBlanks_step trivial
  have hpc := pc_of_halted hnone
  obtain ⟨pc, r', out⟩ := t
  subst hpc
  exact hpast

/-! ## The native functions -/

section NativeAnswer

variable {line : Bytes}

theorem answer_native_of_blankCr (hline : BlankCr line) :
    C.answer (nativeOutcome line) ≠ C.answer (C.nativeOutcome line) := by
  obtain ⟨hskip, hskipAsm, hno, -⟩ := skipped_of_blankCr hline
  rw [nativeOutcome, C.nativeOutcome, C.lineOutcomeC, hskip, hskipAsm, if_neg Bool.false_ne_true,
    if_pos rfl, assignmentOutcome, splitEquals_none.mpr hno]
  intro h
  cases congrArg Prod.fst h

theorem answer_native_iff (hline : ¬ BlankCr line) :
    C.answer (nativeOutcome line) = C.answer (C.nativeOutcome line) ↔ ¬ NativeDiffers line := by
  have hdiffers : NativeDiffers line ↔ NulNative line := or_iff_right hline
  rw [hdiffers, nativeOutcome, C.nativeOutcome, C.lineOutcomeC, isSkippedAsm_eq hline]
  cases hs : isSkipped line with
  | true => exact ⟨fun _ h => (by cases hs.symm.trans h.1), fun _ => rfl⟩
  | false =>
      rw [if_neg Bool.false_ne_true, if_neg Bool.false_ne_true]
      by_cases hnul : Byte.nul ∈ line
      · have hnative : ¬ NulNative line ↔ ∃ k v, line = k ++ Byte.equals :: v ∧
            Byte.equals ∉ k ∧ k ≠ [] ∧ Byte.nul ∈ v := by
          rw [NulNative, not_and, not_and, not_not]
          exact ⟨fun h => h hs hnul, fun h _ _ => h⟩
        rw [if_pos hnul, hnative, answer_invalid_iff, assignmentOutcome]
        rcases line_shape line with ⟨hno, hsplit⟩ | ⟨k, v, rfl, hk, hsplit⟩
        · rw [hsplit]
          refine ⟨by rintro ⟨⟩, ?_⟩
          rintro ⟨k, v, rfl, -⟩
          exact absurd (List.mem_append_right k List.mem_cons_self) hno
        · rw [hsplit]
          show (C.answer (nativeAssignmentAsm k v)).1 = _ ↔ _
          constructor
          · intro h
            rw [nativeAssignmentAsm] at h
            split at h
            · cases h
            split at h
            · exact ⟨k, v, rfl, hk, ‹_›, ‹_›⟩
            · cases h
          · rintro ⟨k', v', he, hk', hne, hv⟩
            obtain ⟨rfl, rfl⟩ := split_unique hk hk' he
            rw [nativeAssignmentAsm, if_neg hne, if_pos hv]
            rfl
      · rw [if_neg hnul]
        refine ⟨fun _ h => hnul h.2.1, fun _ => ?_⟩
        rw [assignmentOutcome, assignmentOutcome]
        rcases line_shape line with ⟨-, hsplit⟩ | ⟨k, v, rfl, -, hsplit⟩
        · rw [hsplit]
        · rw [hsplit]
          show C.answer (nativeAssignmentAsm k v) = C.answer (nativeAssignment k v)
          have hv : Byte.nul ∉ v :=
            fun h => hnul (List.mem_append_right k (List.mem_cons_of_mem _ h))
          rw [nativeAssignmentAsm, if_neg hv]
          rfl

end NativeAnswer

/-! ## Where the backends are interchangeable -/

theorem fits_shellOutcomeC (line : Bytes) : Fits line (C.shellOutcome line) := by
  rw [C.shellOutcome, C.lineOutcomeC]
  split
  · trivial
  split
  · trivial
  · refine fits_assignment ?_ line
    intro k v
    rw [C.shellAssignmentC]
    split
    · trivial
    split
    · trivial
    split
    · trivial
    · exact fits_ofValue fun w quoting h => h

theorem fits_nativeOutcomeC (line : Bytes) : Fits line (C.nativeOutcome line) := by
  rw [C.nativeOutcome, C.lineOutcomeC]
  split
  · trivial
  split
  · trivial
  · refine fits_assignment ?_ line
    intro k v
    rw [nativeAssignment]
    split
    · trivial
    · show k.length + 1 + v.length ≤ _
      rw [List.length_append, List.length_cons]
      omega

/-- The two shell classifiers answer alike on a line exactly when it is none of
the four kinds of `ShellDiffers`. -/
theorem shell_agrees_iff (mem : Memory) (regs : Regs) :
    Agrees (envfileParseShell mem) regs.rdi (C.envfileParseShell (regs.line mem))
      (call .entry regs) ↔ ¬ ShellDiffers (regs.line mem) := by
  rw [C.envfileParseShell, C.parseShell_eq]
  by_cases hcr : regs.line mem = [Byte.cr]
  · have hblank : BlankCr (regs.line mem) := ⟨[], hcr, rfl⟩
    refine iff_of_false ?_ (fun h => h (Or.inl hblank))
    rintro ⟨t, ht, hnone, hrax, -⟩
    refine shell_not_skips hcr ht hnone (hrax.trans ?_)
    rw [C.shellOutcome, C.lineOutcomeC, (skipped_of_blankCr hblank).1]
    rfl
  · rw [agrees_iff (envfileParseShell_answers mem regs hcr) (fits_shellOutcome _)
      (fits_shellOutcomeC _)]
    by_cases hblank : BlankCr (regs.line mem)
    · exact iff_of_false (answer_shell_of_blankCr hblank) (fun h => h (Or.inl hblank))
    · exact answer_shell_iff hblank

/-- `0= 1`: the key is invalid for C, the blank comes first for the assembly. -/
theorem shell_differs_key_and_value :
    ¬ Agrees (envfileParseShell (memoryOf (ascii "0= 1"))) 0
      (C.envfileParseShell (ascii "0= 1")) (call .entry (regsOf (ascii "0= 1"))) := by
  have hline : (regsOf (ascii "0= 1")).line (memoryOf (ascii "0= 1")) = ascii "0= 1" := by decide
  have hanswers := envfileParseShell_answers (memoryOf (ascii "0= 1")) (regsOf (ascii "0= 1"))
    (by decide)
  rw [C.envfileParseShell, C.parseShell_eq]
  intro h
  have := (agrees_iff hanswers (fits_shellOutcome _) (hline.symm ▸ fits_shellOutcomeC _)).mp h
  exact absurd (congrArg Prod.fst this) (by decide)

/-- The two native classifiers answer alike on a line exactly when it is none of
the two kinds of `NativeDiffers`. -/
theorem native_agrees_iff (mem : Memory) (regs : Regs) :
    Agrees (envfileParseNative mem) regs.rdi (C.envfileParseNative (regs.line mem))
      (call .entry regs) ↔ ¬ NativeDiffers (regs.line mem) := by
  rw [C.envfileParseNative, C.parseNative_eq, agrees_iff (envfileParseNative_answers mem regs)
    (fits_nativeOutcome _) (fits_nativeOutcomeC _)]
  by_cases hblank : BlankCr (regs.line mem)
  · exact iff_of_false (answer_native_of_blankCr hblank) (fun h => h (Or.inl hblank))
  · exact answer_native_iff hblank

/-- A NUL in the key: C rejects the line, the assembly accepts it. -/
theorem native_differs_nul_key :
    ¬ Agrees (envfileParseNative (memoryOf [65, 0, 61, 49])) 0
      (C.envfileParseNative [65, 0, 61, 49]) (call .entry (regsOf [65, 0, 61, 49])) := by
  have hline : (regsOf [65, 0, 61, 49]).line (memoryOf [65, 0, 61, 49]) = [65, 0, 61, 49] := by
    decide
  have hanswers := envfileParseNative_answers (memoryOf [65, 0, 61, 49]) (regsOf [65, 0, 61, 49])
  rw [C.envfileParseNative, C.parseNative_eq]
  intro h
  have := (agrees_iff hanswers (fits_nativeOutcome _) (hline.symm ▸ fits_nativeOutcomeC _)).mp h
  exact absurd (congrArg Prod.fst this) (by decide)

end Envfile.Asm

/-
# `Envfile.C.Classify` — what `backend.c` makes of a line

`parseShell` and `parseNative` work on offsets; `shellOutcome` and
`nativeOutcome` say the same on byte strings, and `parseShell_eq` and
`parseNative_eq` say that they do.  Everything later reasons about outcomes.

The C cascade differs from the reference in two places: a NUL anywhere in a
line that is not skipped is reported before anything else, and an invalid
shell key is reported before a blank at the start of the value.
-/
import Envfile.C.Backend
import Envfile.Record

namespace Envfile.C

/-! ## Outcomes as the C ABI reports them -/

def EnvfileValueKind.ofQuoting : Quoting → EnvfileValueKind
  | .plain => .plain
  | .single => .singleQuoted
  | .double => .doubleQuoted

/-- The status of a code.  The classifiers report line codes only. -/
def EnvfileStatus.ofCode : Code → EnvfileStatus
  | .noEquals => .errNoEquals
  | .emptyKey => .errEmptyKey
  | .keyInvalid => .errKeyInvalid
  | .keyLeadingWhitespace => .errKeyLeadingWhitespace
  | .keyTrailingWhitespace => .errKeyTrailingWhitespace
  | .valueLeadingWhitespace => .errValueLeadingWhitespace
  | .singleQuoteUnterminated => .errSingleQuoteUnterminated
  | .doubleQuoteUnterminated => .errDoubleQuoteUnterminated
  | .trailingContent => .errTrailingContent
  | _ => .errValueInvalidChar

/-- The record of an accepted line `key=…`: the payload starts after the `=`,
or after the opening quote. -/
def recordOf (key value : Bytes) (quoting : Quoting) : EnvfileRecord :=
  fillRecord key.length (key.length + if quoting = .plain then 1 else 2) value.length
    (.ofQuoting quoting)

/-- The status and the record that report an outcome. -/
def answer : Outcome → EnvfileStatus × EnvfileRecord
  | .skipped => (.skip, .zero)
  | .rejected code => (.ofCode code, .zero)
  | .accepted key value quoting => (.ok, recordOf key value quoting)

/-! ## The cascades -/

/-- `k=v` in shell format, in the order of `parse_shell`. -/
def shellAssignmentC (k v : Bytes) : Outcome :=
  match keyFault k with
  | some code => .rejected code
  | none =>
    if !isName k then .rejected .keyInvalid
    else if startsBlank v then .rejected .valueLeadingWhitespace
    else .ofValue k (unquote v)

/-- The head both classifiers share: skipped lines, then NUL, then the `=`. -/
def lineOutcomeC (assignment : Bytes → Bytes → Outcome) (line : Bytes) : Outcome :=
  if isSkipped line then .skipped
  else if Byte.nul ∈ line then .rejected .valueInvalidChar
  else assignmentOutcome assignment line

def shellOutcome : Bytes → Outcome := lineOutcomeC shellAssignmentC

def nativeOutcome : Bytes → Outcome := lineOutcomeC nativeAssignment

/-! ## Against the reference -/

/-- A key that is no shell name but has no fault that comes first, and a blank
in front of the value: C names the key, the reference the blank. -/
def KeyAndValue (line : Bytes) : Prop :=
  isSkipped line = false ∧ Byte.nul ∉ line ∧
    ∃ k v, line = k ++ Byte.equals :: v ∧ Byte.equals ∉ k ∧ keyFault k = none ∧
      isName k = false ∧ startsBlank v = true

theorem shellOutcome_of_keyAndValue {line : Bytes} (h : KeyAndValue line) :
    shellOutcome line = .rejected .keyInvalid ∧
      referenceShell line = .rejected .valueLeadingWhitespace := by
  obtain ⟨hskip, hnul, k, v, rfl, hk, hfault, hname, hblank⟩ := h
  rw [shellOutcome, lineOutcomeC, referenceShell, lineOutcome, hskip, if_neg Bool.false_ne_true,
    if_neg Bool.false_ne_true, if_neg hnul, assignmentOutcome, assignmentOutcome,
    splitEquals_append hk]
  refine ⟨?_, ?_⟩
  · show shellAssignmentC k v = _
    rw [shellAssignmentC, hfault, hname]
    rfl
  · show shellAssignment k v = _
    rw [shellAssignment, hfault, hblank]
    rfl

/-- On every other line without a NUL the cascades agree. -/
theorem shellOutcome_eq {line : Bytes} (hnul : Byte.nul ∉ line) (h : ¬ KeyAndValue line) :
    shellOutcome line = referenceShell line := by
  rw [shellOutcome, lineOutcomeC, referenceShell, lineOutcome, if_neg hnul]
  cases hskip : isSkipped line with
  | true => rfl
  | false =>
      rw [if_neg Bool.false_ne_true, if_neg Bool.false_ne_true, assignmentOutcome,
        assignmentOutcome]
      rcases line_shape line with ⟨-, hsplit⟩ | ⟨k, v, rfl, hk, hsplit⟩
      · rw [hsplit]
      · rw [hsplit]
        show shellAssignmentC k v = shellAssignment k v
        rw [shellAssignmentC, shellAssignment]
        cases hfault : keyFault k with
        | some code => rfl
        | none =>
            cases hname : isName k with
            | true => cases startsBlank v <;> rfl
            | false =>
                have hblank : startsBlank v = false := by
                  rw [Bool.eq_false_iff]
                  intro hb
                  exact h ⟨hskip, hnul, k, v, rfl, hk, hfault, hname, hb⟩
                rw [hblank]
                rfl

theorem nativeOutcome_eq {line : Bytes} (hnul : Byte.nul ∉ line) :
    nativeOutcome line = referenceNative line := by
  rw [nativeOutcome, lineOutcomeC, referenceNative, lineOutcome, if_neg hnul]

/-! ## Accepted lines -/

/-- What the classifier of a format makes of a line. -/
def outcome (native : Bool) : Bytes → Outcome := if native then nativeOutcome else shellOutcome

/-- The raw value behind an accepted one. -/
def IsValue (native : Bool) (k raw v : Bytes) (quoting : Quoting) : Prop :=
  if native then raw = v ∧ quoting = .plain
  else isName k = true ∧ startsBlank raw = false ∧ unquote raw = .ok (v, quoting)

theorem outcome_accepted {native : Bool} {line k v : Bytes} {quoting : Quoting}
    (h : outcome native line = .accepted k v quoting) :
    isSkipped line = false ∧ Byte.nul ∉ line ∧ ∃ raw, line = k ++ Byte.equals :: raw ∧
      Byte.equals ∉ k ∧ k ≠ [] ∧ IsValue native k raw v quoting := by
  have hline : lineOutcomeC (fun k v => if native then nativeAssignment k v
      else shellAssignmentC k v) line = .accepted k v quoting := by
    cases native with
    | true => exact h
    | false => exact h
  rw [lineOutcomeC] at hline
  split at hline
  · cases hline
  split at hline
  · cases hline
  refine ⟨Bool.not_eq_true _ ▸ ‹¬ isSkipped line = true›, ‹_›, ?_⟩
  rw [assignmentOutcome] at hline
  rcases line_shape line with ⟨-, hsplit⟩ | ⟨k', raw, rfl, hk, hsplit⟩
  · rw [hsplit] at hline
    cases hline
  rw [hsplit] at hline
  cases native with
  | true =>
      have hline : nativeAssignment k' raw = _ := hline
      rw [nativeAssignment] at hline
      split at hline
      · cases hline
      · obtain ⟨rfl, rfl, rfl⟩ := Outcome.accepted.inj hline
        exact ⟨raw, rfl, hk, ‹_›, rfl, rfl⟩
  | false =>
      have hline : shellAssignmentC k' raw = _ := hline
      rw [shellAssignmentC] at hline
      cases hfault : keyFault k' with
      | some code =>
          rw [hfault] at hline
          cases hline
      | none =>
          simp only [hfault] at hline
          split at hline
          · cases hline
          split at hline
          · cases hline
          have hname : isName k' = true := by simpa using ‹¬ (!isName k') = true›
          have hblank : startsBlank raw = false := Bool.not_eq_true _ ▸ ‹¬ startsBlank raw = true›
          cases hu : unquote raw with
          | error code =>
              rw [hu] at hline
              cases hline
          | ok p =>
              rw [hu] at hline
              obtain ⟨rfl, rfl, rfl⟩ := Outcome.accepted.inj hline
              exact ⟨raw, rfl, hk, ne_nil_of_isName hname, hname, hblank, hu⟩

theorem IsValue.sublist {native : Bool} {k raw v : Bytes} {quoting : Quoting}
    (h : IsValue native k raw v quoting) : v.Sublist raw := by
  cases native with
  | true =>
      obtain ⟨rfl, -⟩ : raw = v ∧ quoting = .plain := h
      exact List.Sublist.refl raw
  | false =>
      obtain ⟨-, -, hu⟩ : isName k = true ∧ startsBlank raw = false ∧ _ := h
      rcases unquote_ok hu with ⟨-, rfl, -⟩ | ⟨q, -, -, rfl, -⟩
      · exact List.Sublist.refl raw
      · exact (List.sublist_append_left v [q]).cons q

theorem nulFree_of_accepted {native : Bool} {line k v : Bytes} {quoting : Quoting}
    (hnul : Byte.nul ∉ line) (h : outcome native line = .accepted k v quoting) :
    Byte.nul ∉ k ∧ Byte.nul ∉ v := by
  obtain ⟨-, -, raw, rfl, -, -, hvalue⟩ := outcome_accepted h
  rw [List.mem_append, List.mem_cons, not_or, not_or] at hnul
  exact ⟨hnul.1, fun hv => hnul.2.2 (hvalue.sublist.subset hv)⟩

/-! ## Rejected lines -/

theorem shellAssignmentC_rejected {k v : Bytes} {code : Code}
    (h : shellAssignmentC k v = .rejected code) : code.isAssignmentCode = true := by
  rw [shellAssignmentC] at h
  split at h
  · obtain rfl := Outcome.rejected.inj h
    exact keyFault_rejected ‹_›
  split at h
  · obtain rfl := Outcome.rejected.inj h
    rfl
  split at h
  · obtain rfl := Outcome.rejected.inj h
    rfl
  · exact ofValue_rejected h

theorem outcome_rejected {native : Bool} {line : Bytes} {code : Code}
    (h : outcome native line = .rejected code) :
    (code = .noEquals ∧ Byte.equals ∉ line) ∨ code.isAssignmentCode = true := by
  have key : ∀ f : Bytes → Bytes → Outcome,
      (∀ k v, f k v = .rejected code → code.isAssignmentCode = true) →
      lineOutcomeC f line = .rejected code →
      (code = .noEquals ∧ Byte.equals ∉ line) ∨ code.isAssignmentCode = true := by
    intro f hf h
    rw [lineOutcomeC] at h
    split at h
    · cases h
    split at h
    · obtain rfl := Outcome.rejected.inj h
      exact Or.inr rfl
    · exact assignmentOutcome_rejected hf h
  cases native with
  | true => exact key _ (fun _ _ => nativeAssignment_rejected) h
  | false => exact key _ (fun _ _ => shellAssignmentC_rejected) h

/-! ## Bytes at offsets -/

theorem byteAt_cons_zero (c : UInt8) (s : Bytes) : byteAt (c :: s) 0 = c := rfl

theorem byteAt_append (u v : Bytes) (i : Nat) : byteAt (u ++ v) (u.length + i) = byteAt v i := by
  simp only [byteAt, List.getD_eq_getElem?_getD]
  rw [List.getElem?_append_right (Nat.le_add_right _ _), Nat.add_sub_cancel_left]

theorem byteAt_append_left {u : Bytes} {i : Nat} (h : i < u.length) (v : Bytes) :
    byteAt (u ++ v) i = byteAt u i := by
  simp [byteAt, List.getD_eq_getElem?_getD, List.getElem?_append_left h]

theorem byteAt_last {s : Bytes} (h : s ≠ []) : byteAt s (s.length - 1) = s.getLast h := by
  have hlt : s.length - 1 < s.length := by
    have := List.length_pos_iff.mpr h
    omega
  simp [byteAt, List.getD_eq_getElem?_getD, List.getElem?_eq_getElem hlt, List.getLast_eq_getElem]

theorem bytesAt_append (u v : Bytes) (i n : Nat) :
    bytesAt (u ++ v) (u.length + i) n = bytesAt v i n := by
  rw [bytesAt, bytesAt, ← List.drop_drop, List.drop_left]

theorem bytesAt_tail (c : UInt8) (s : Bytes) : bytesAt (c :: s) 1 ((c :: s).length - 1) = s := by
  simp [bytesAt]

theorem bytesAt_zero (s : Bytes) (off : Nat) : bytesAt s off 0 = [] := List.take_zero

theorem bytesAt_all (s : Bytes) : bytesAt s 0 s.length = s := by
  simp [bytesAt]

/-! ## Blank and comment lines -/

theorem lenWithoutCr_eq (s : Bytes) : lenWithoutCr s = (trimCr s).length := by
  rcases cr_cases s with ⟨t, rfl⟩ | h
  · have : byteAt (t ++ [Byte.cr]) t.length = Byte.cr := byteAt_append t [Byte.cr] 0
    simp [lenWithoutCr, trimCr_concat_cr, this]
  · rw [trimCr_of_getLast? h]
    rcases eq_or_ne s [] with rfl | hs
    · rfl
    · have hl : byteAt s (s.length - 1) ≠ Byte.cr := by
        rw [byteAt_last hs]
        intro he
        exact h (by rw [List.getLast?_eq_some_getLast hs, he])
      simp [lenWithoutCr, hl]

theorem take_lenWithoutCr (s : Bytes) : s.take (lenWithoutCr s) = trimCr s := by
  rw [lenWithoutCr_eq]
  rcases cr_cases s with ⟨t, rfl⟩ | h
  · simp [trimCr_concat_cr]
  · simp [trimCr_of_getLast? h]

theorem isBlankOrCommentRecord_eq (s : Bytes) : isBlankOrCommentRecord s = isSkipped s := by
  have hhead : (byteAt s 0 == Byte.hash) = (s.head? == some Byte.hash) := by
    cases s <;> rfl
  simp only [isBlankOrCommentRecord, take_lenWithoutCr, hhead, isSkipped, isBlankLine,
    isSpaceByte]
  rw [lenWithoutCr_eq]
  cases trimCr s with
  | nil => simp
  | cons c t => cases h : (s.head? == some Byte.hash) <;> simp

/-! ## The two classifiers -/

section Cascade

variable {line : Bytes}

theorem parse_head {parse : Parse} {body : Nat → EnvfileStatus × EnvfileRecord}
    {assignment : Bytes → Bytes → Outcome}
    (hparse : parse line =
      if isBlankOrCommentRecord line then (.skip, .zero)
      else if (memchr line Byte.nul).isSome then (.errValueInvalidChar, .zero)
      else match memchr line Byte.equals with
        | none => (.errNoEquals, .zero)
        | some keyLen => body keyLen)
    (hbody : ∀ k v, line = k ++ Byte.equals :: v → Byte.equals ∉ k →
      body k.length = answer (assignment k v)) :
    parse line = answer (lineOutcomeC assignment line) := by
  rw [hparse, isBlankOrCommentRecord_eq, lineOutcomeC]
  by_cases hskip : isSkipped line = true
  · simp [hskip, answer]
  rw [if_neg hskip, if_neg hskip]
  by_cases hnul : Byte.nul ∈ line
  · rw [if_pos (memchr_isSome.mpr hnul), if_pos hnul]
    rfl
  rw [if_neg (fun h => hnul (memchr_isSome.mp h)), if_neg hnul]
  rw [assignmentOutcome]
  rcases line_shape line with ⟨hno, hsplit⟩ | ⟨k, v, hline, hk, hsplit⟩
  · rw [hsplit, memchr_eq_none.mpr hno]
    rfl
  · have hmem : memchr line Byte.equals = some k.length := by
      rw [hline]; exact memchr_append hk v
    rw [hsplit, hmem]
    exact hbody k v hline hk

end Cascade

theorem isShellKeyRest_eq (c : UInt8) : isShellKeyRest c = isNameRest c := by
  simp only [isShellKeyRest, isAsciiAlnum, isAsciiAlpha, isAsciiUpper, isAsciiLower, isAsciiDigit,
    isNameRest, isNameStart]
  cases isUpper c <;> cases isLower c <;> cases isDigit c <;> simp

section Assignment

variable (k v : Bytes)

theorem length_after_key : (k ++ Byte.equals :: v).length - k.length - 1 = v.length := by
  simp only [List.length_append, List.length_cons]
  omega

theorem byteAt_value (i : Nat) :
    byteAt (k ++ Byte.equals :: v) (k.length + 1 + i) = byteAt v i := by
  rw [Nat.add_assoc, byteAt_append, Nat.add_comm 1 i]
  rfl

theorem bytesAt_value (i n : Nat) :
    bytesAt (k ++ Byte.equals :: v) (k.length + 1 + i) n = bytesAt v i n := by
  rw [Nat.add_assoc, bytesAt_append, Nat.add_comm 1 i]
  rfl

theorem parseShellValue_eq :
    parseShellValue (k ++ Byte.equals :: v) k.length =
      answer (if startsBlank v then .rejected .valueLeadingWhitespace
        else .ofValue k (unquote v)) := by
  have hlen := length_after_key k v
  have hbyte : byteAt (k ++ Byte.equals :: v) (k.length + 1) = byteAt v 0 := byteAt_value k v 0
  have hbytes : bytesAt (k ++ Byte.equals :: v) (k.length + 1) v.length = v := by
    rw [← bytesAt_all v]; simpa [bytesAt_all] using bytesAt_value k v 0 v.length
  have hrest := bytesAt_value k v 1 (v.length - 1)
  simp only [parseShellValue, hlen, hbyte, hbytes, hrest]
  rcases value_shape v with ⟨hd, hs⟩ | ⟨q, rest, rfl, hq, hr⟩ | ⟨q, inner, after, rfl, hq, hi⟩
  · -- no opening quote
    rw [unquote_plain hd hs]
    cases v with
    | nil => rfl
    | cons c v =>
        have hc : (c == Byte.dquote || c == Byte.squote) = false := by
          simp only [List.head?_cons, ne_eq, Option.some.injEq] at hd hs
          simp [hd, hs]
        cases hb : isBlank c with
        | true =>
            simp [startsBlank, hb, isSpaceByte, byteAt_cons_zero, answer, EnvfileStatus.ofCode]
        | false =>
            simp only [byteAt_cons_zero, isSpaceByte, hb, hc, startsBlank, List.head?_cons,
              Option.any_some, Bool.and_false, Bool.false_eq_true, if_false]
            by_cases hbad : (c :: v).any Envfile.isBadUnquoted = true
            · have hbad' : (c :: v).any isBadUnquoted = true := hbad
              rw [if_pos hbad, if_pos hbad']; rfl
            · have hbad' : ¬ (c :: v).any isBadUnquoted = true := hbad
              rw [if_neg hbad, if_neg hbad']; rfl
  · -- an opening quote that is never closed
    rw [unquote_open hq hr, bytesAt_tail, byteAt_cons_zero, memchr_eq_none.mpr hr]
    simp only [isSpaceByte, isBlank_of_quote hq, beq_of_quote hq, startsBlank, List.head?_cons,
      Option.any_some, Bool.and_false, Bool.false_eq_true, if_false, Bool.and_true]
    rcases hq with rfl | rfl <;> rfl
  · -- an opening and a closing quote
    have hend : (k.length + 1 + 1 + inner.length + 1
        != (k ++ Byte.equals :: q :: (inner ++ q :: after)).length) = !after.isEmpty := by
      cases after with
      | nil => simp; omega
      | cons a after => simp; omega
    rw [unquote_quoted hq hi, bytesAt_tail, byteAt_cons_zero, memchr_append hi]
    simp only [isSpaceByte, isBlank_of_quote hq, beq_of_quote hq, startsBlank, List.head?_cons,
      Option.any_some, Bool.and_false, Bool.false_eq_true, if_false, Bool.and_true, hend]
    cases after with
    | nil => rcases hq with rfl | rfl <;> rfl
    | cons a after => rcases hq with rfl | rfl <;> rfl

end Assignment

theorem parseShell_eq (line : Bytes) : parseShell line = answer (shellOutcome line) := by
  refine parse_head rfl ?_
  rintro k v rfl -
  cases k with
  | nil => rfl
  | cons c k =>
      have hkey : bytesAt (c :: k ++ Byte.equals :: v) 1 ((c :: k).length - 1) = k := by
        simp [bytesAt]
      have hlast : byteAt (c :: k ++ Byte.equals :: v) ((c :: k).length - 1)
          = (c :: k).getLast (List.cons_ne_nil _ _) := by
        rw [byteAt_append_left (by simp), byteAt_last]
      have hzero : byteAt (c :: k ++ Byte.equals :: v) 0 = c := rfl
      have hrest : k.all isShellKeyRest = k.all isNameRest := by
        congr 1
        exact funext isShellKeyRest_eq
      have hends : endsBlank (c :: k) = isBlank ((c :: k).getLast (List.cons_ne_nil _ _)) := by
        simp [endsBlank, List.getLast?_eq_some_getLast]
      have hvalue := parseShellValue_eq (c :: k) v
      rw [if_neg (by simp : ¬ ((c :: k).length == 0) = true), hlast, hkey, hrest, hzero, hvalue,
        shellAssignmentC]
      show (if isBlank c = true then _ else if isBlank _ = true then _
        else if (!isNameStart c) = true then _ else _) = _
      by_cases hb : isBlank c = true
      · rw [if_pos hb]
        simp [keyFault, startsBlank, hb, answer, EnvfileStatus.ofCode]
      by_cases he : isBlank ((c :: k).getLast (List.cons_ne_nil _ _)) = true
      · rw [if_neg hb, if_pos he]
        simp [keyFault, startsBlank, hb, hends, he, answer, EnvfileStatus.ofCode]
      have hfault : keyFault (c :: k) = none := by
        simp [keyFault, startsBlank, hb, hends, he]
      rw [if_neg hb, if_neg he, hfault, isName]
      cases isNameStart c with
      | false => rfl
      | true => cases k.all isNameRest <;> rfl

theorem parseNative_eq (line : Bytes) : parseNative line = answer (nativeOutcome line) := by
  refine parse_head rfl ?_
  rintro k v rfl -
  cases k with
  | nil => rfl
  | cons c k =>
      rw [length_after_key]
      rfl

theorem parse_eq (native : Bool) (line : Bytes) :
    (if native then parseNative else parseShell) line = answer (outcome native line) := by
  cases native with
  | true => exact parseNative_eq line
  | false => exact parseShell_eq line

theorem slices_of_accepted {native : Bool} {line k v : Bytes} {quoting : Quoting}
    (h : outcome native line = .accepted k v quoting) :
    bytesAt line (recordOf k v quoting).key (recordOf k v quoting).keyLen = k ∧
      bytesAt line (recordOf k v quoting).value (recordOf k v quoting).valueLen = v := by
  obtain ⟨-, -, raw, rfl, -, -, hvalue⟩ := outcome_accepted h
  refine ⟨List.take_left, ?_⟩
  have hplain : ∀ raw, bytesAt (k ++ Byte.equals :: raw) (k.length + 1) raw.length = raw := by
    intro raw
    have := bytesAt_value k raw 0 raw.length
    rwa [bytesAt_all] at this
  cases native with
  | true =>
      obtain ⟨rfl, rfl⟩ : raw = v ∧ quoting = .plain := hvalue
      exact hplain raw
  | false =>
      obtain ⟨-, -, hu⟩ : isName k = true ∧ startsBlank raw = false ∧ _ := hvalue
      rcases unquote_ok hu with ⟨rfl, rfl, -⟩ | ⟨q, -, rfl, rfl, -⟩
      · exact hplain raw
      · show bytesAt _ (k.length + if Quoting.ofQuote q = .plain then 1 else 2) v.length = v
        rw [if_neg (ofQuote_ne_plain q)]
        have := bytesAt_value k (q :: (v ++ [q])) 1 v.length
        rw [Nat.add_assoc] at this
        rw [this, bytesAt, List.drop_succ_cons, List.drop_zero, List.take_left]

end Envfile.C

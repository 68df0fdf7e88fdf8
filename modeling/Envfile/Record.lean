/-
# `Envfile.Record` — what a line means

The abstract side of the record classifiers.  A line is skipped, rejected
with one code, or accepted as a key and a value; `Outcome` is that answer with
nothing of any port left in it: no offsets, no status numbers, no sentinel.

`referenceShell` and `referenceNative` are the two formats as
`shell/README.md` and `native/README.md` give them: one cascade of tests, of
which the first that fails names the code.  A port's classifier is compared
with them, or with another port's, as a function from lines to outcomes.
-/
import Envfile.Output

namespace Envfile

/-- How an accepted shell value was written. -/
inductive Quoting where
  | plain
  | single
  | double
deriving DecidableEq, Repr

/-- What a line means. -/
inductive Outcome where
  | skipped
  | rejected (code : Code)
  | accepted (key value : Bytes) (quoting : Quoting)
deriving DecidableEq, Repr

/-- The code that a line is rejected with. -/
def Outcome.codes : Outcome → List Code
  | .rejected code => [code]
  | _ => []

/-- The binding that a line is accepted as. -/
def Outcome.bindings : Outcome → List Binding
  | .accepted key value _ => [(key, value)]
  | _ => []

/-- A line cut at its first `=`. -/
def splitEquals (line : Bytes) : Option (Bytes × Bytes) :=
  (memchr line Byte.equals).map fun i => (line.take i, line.drop (i + 1))

/-- A line that `normalize` prints. -/
def isAssignment (line : Bytes) : Bool := !isSkipped line && decide (Byte.equals ∈ line)

def startsBlank (s : Bytes) : Bool := s.head?.any isBlank

def endsBlank (s : Bytes) : Bool := s.getLast?.any isBlank

/-- A byte no unquoted value may contain. -/
def isBadUnquoted (c : UInt8) : Bool :=
  isBlank c || c == Byte.squote || c == Byte.dquote || c == Byte.backslash

def unterminated (q : UInt8) : Code :=
  if q = Byte.dquote then .doubleQuoteUnterminated else .singleQuoteUnterminated

def Quoting.ofQuote (q : UInt8) : Quoting := if q = Byte.squote then .single else .double

/-- A shell value without its quotes. -/
def unquote : Bytes → Except Code (Bytes × Quoting)
  | [] => .ok ([], .plain)
  | q :: rest =>
    if q = Byte.dquote ∨ q = Byte.squote then
      if q ∉ rest then .error (unterminated q)
      else if rest.dropWhile (· != q) ≠ [q] then .error .trailingContent
      else .ok (rest.takeWhile (· != q), .ofQuote q)
    else if (q :: rest).any isBadUnquoted then .error .valueInvalidChar
    else .ok (q :: rest, .plain)

/-- The faults of a key that come before every other fault. -/
def keyFault (k : Bytes) : Option Code :=
  if k = [] then some .emptyKey
  else if startsBlank k then some .keyLeadingWhitespace
  else if endsBlank k then some .keyTrailingWhitespace
  else none

def Outcome.ofValue (k : Bytes) : Except Code (Bytes × Quoting) → Outcome
  | .error code => .rejected code
  | .ok (value, quoting) => .accepted k value quoting

/-- The assignment `k=v` in shell format. -/
def shellAssignment (k v : Bytes) : Outcome :=
  match keyFault k with
  | some code => .rejected code
  | none =>
    if startsBlank v then .rejected .valueLeadingWhitespace
    else if !isName k then .rejected .keyInvalid
    else .ofValue k (unquote v)

/-- The assignment `k=v` in native format. -/
def nativeAssignment (k v : Bytes) : Outcome :=
  if k = [] then .rejected .emptyKey else .accepted k v .plain

/-- A line that must be an assignment, which means what `assignment` says. -/
def assignmentOutcome (assignment : Bytes → Bytes → Outcome) (line : Bytes) : Outcome :=
  match splitEquals line with
  | none => .rejected .noEquals
  | some (k, v) => assignment k v

def lineOutcome (assignment : Bytes → Bytes → Outcome) (line : Bytes) : Outcome :=
  if isSkipped line then .skipped else assignmentOutcome assignment line

/-- Shell format. -/
def referenceShell : Bytes → Outcome := lineOutcome shellAssignment

/-- Native format. -/
def referenceNative : Bytes → Outcome := lineOutcome nativeAssignment

/-- The format a port is asked for. -/
def reference (native : Bool) : Bytes → Outcome :=
  if native then referenceNative else referenceShell

/-- The assignments of the format. -/
def assignment (native : Bool) : Bytes → Bytes → Outcome :=
  if native then nativeAssignment else shellAssignment

theorem reference_eq (native : Bool) (line : Bytes) :
    reference native line =
      if isSkipped line then .skipped else assignmentOutcome (assignment native) line := by
  cases native <;> rfl

theorem assignment_ne_skipped (native : Bool) (k v : Bytes) : assignment native k v ≠ .skipped := by
  have hvalue : ∀ value, Outcome.ofValue k value ≠ .skipped := by
    intro value
    cases value <;> rintro ⟨⟩
  cases native with
  | true =>
      show nativeAssignment k v ≠ _
      rw [nativeAssignment]
      split <;> rintro ⟨⟩
  | false =>
      show shellAssignment k v ≠ _
      rw [shellAssignment]
      split
      · rintro ⟨⟩
      split
      · rintro ⟨⟩
      split
      · rintro ⟨⟩
      · exact hvalue _

theorem reference_eq_skipped {native : Bool} {line : Bytes} :
    reference native line = .skipped ↔ isSkipped line = true := by
  rw [reference_eq]
  cases isSkipped line with
  | true => exact ⟨fun _ => rfl, fun _ => rfl⟩
  | false =>
      refine iff_of_false ?_ Bool.false_ne_true
      rw [if_neg Bool.false_ne_true, assignmentOutcome]
      split
      · rintro ⟨⟩
      · exact assignment_ne_skipped _ _ _

/-! ## Cutting a line -/

theorem splitEquals_none {line : Bytes} : splitEquals line = none ↔ Byte.equals ∉ line := by
  simp [splitEquals, memchr_eq_none]

theorem splitEquals_append {k : Bytes} (h : Byte.equals ∉ k) (v : Bytes) :
    splitEquals (k ++ Byte.equals :: v) = some (k, v) := by
  simp [splitEquals, memchr_append h]

theorem line_shape (line : Bytes) :
    (Byte.equals ∉ line ∧ splitEquals line = none) ∨
    ∃ k v, line = k ++ Byte.equals :: v ∧ Byte.equals ∉ k ∧ splitEquals line = some (k, v) := by
  rcases split_first Byte.equals line with h | ⟨k, v, rfl, hk⟩
  · exact Or.inl ⟨h, splitEquals_none.mpr h⟩
  · exact Or.inr ⟨k, v, rfl, hk, splitEquals_append hk v⟩

theorem split_unique {k v k' v' : Bytes} (hk : Byte.equals ∉ k) (hk' : Byte.equals ∉ k')
    (h : k ++ Byte.equals :: v = k' ++ Byte.equals :: v') : k = k' ∧ v = v' := by
  have := (splitEquals_append hk v).symm.trans ((congrArg splitEquals h).trans
    (splitEquals_append hk' v'))
  exact Prod.mk.inj (Option.some.inj this)

theorem trimCr_assignment (k v : Bytes) :
    trimCr (k ++ Byte.equals :: v) = k ++ Byte.equals :: trimCr v := by
  rcases cr_cases v with ⟨t, rfl⟩ | hcr
  · rw [trimCr_concat_cr, ← List.cons_append, ← List.append_assoc, trimCr_concat_cr]
  · rw [trimCr_of_getLast? hcr, trimCr_of_getLast?]
    cases v with
    | nil => rw [List.getLast?_concat]; decide
    | cons c v => simpa [List.getLast?_cons_cons] using hcr

/-- A line with a key is passed over where the key starts a comment: its `=` is
no blank, and its first byte is the key's. -/
theorem isSkipped_assignment {k : Bytes} (hk : k ≠ []) (v : Bytes) :
    isSkipped (k ++ Byte.equals :: v) = (k.head? == some Byte.hash) := by
  have hequals : (Byte.equals :: trimCr v).all isBlank = false := rfl
  rw [isSkipped, isBlankLine, trimCr_assignment, List.all_append, hequals, Bool.and_false,
    Bool.false_or, List.head?_append_of_ne_nil k hk]

theorem isSkipped_equals (v : Bytes) : isSkipped (Byte.equals :: v) = false := by
  have htrim := trimCr_assignment [] v
  rw [List.nil_append, List.nil_append] at htrim
  rw [isSkipped, isBlankLine, htrim]
  rfl

/-! ## Keys -/

section Keys

variable {k : Bytes}

theorem equals_not_mem_of_isName (hk : isName k = true) : Byte.equals ∉ k :=
  fun hm => (isNameRest_ne (isNameRest_of_isName hk _ hm)).2.1 rfl

theorem nul_not_mem_of_isName (hk : isName k = true) : Byte.nul ∉ k :=
  fun hm => (isNameRest_ne (isNameRest_of_isName hk _ hm)).2.2.1 rfl

theorem keyFault_of_isName (hk : isName k = true) : keyFault k = none := by
  have hrest := isNameRest_of_isName hk
  have hne := ne_nil_of_isName hk
  have hstart : startsBlank k = false := by
    cases k with
    | nil => rfl
    | cons c k => exact (isNameRest_ne (hrest c List.mem_cons_self)).1
  have hend : endsBlank k = false := by
    rw [endsBlank, List.getLast?_eq_some_getLast hne]
    exact (isNameRest_ne (hrest _ (List.getLast_mem hne))).1
  simp [keyFault, hne, hstart, hend]

theorem keyFault_code {code : Code} (h : keyFault k = some code) :
    code = .emptyKey ∨ code = .keyLeadingWhitespace ∨ code = .keyTrailingWhitespace := by
  rw [keyFault] at h
  split at h
  · exact Or.inl (Option.some.inj h).symm
  split at h
  · exact Or.inr (Or.inl (Option.some.inj h).symm)
  split at h
  · exact Or.inr (Or.inr (Option.some.inj h).symm)
  · cases h

theorem not_skipped_of_isName (hk : isName k = true) (v : Bytes) :
    isSkipped (k ++ Byte.equals :: v) = false := by
  rw [isSkipped_assignment (ne_nil_of_isName hk), beq_eq_false_iff_ne]
  intro hhash
  have hmem := List.mem_of_mem_head? hhash
  exact absurd (isNameRest_of_isName hk _ hmem) (by decide)

end Keys

/-! ## Values -/

theorem isBlank_of_quote {q : UInt8} (hq : q = Byte.dquote ∨ q = Byte.squote) :
    isBlank q = false := by
  rcases hq with rfl | rfl <;> decide

theorem beq_of_quote {q : UInt8} (hq : q = Byte.dquote ∨ q = Byte.squote) :
    (q == Byte.dquote || q == Byte.squote) = true := by
  rwa [Bool.or_eq_true, beq_iff_eq, beq_iff_eq]

theorem unquote_quoted {q : UInt8} (hq : q = Byte.dquote ∨ q = Byte.squote) {inner : Bytes}
    (hi : q ∉ inner) (after : Bytes) :
    unquote (q :: (inner ++ q :: after)) =
      if after = [] then .ok (inner, .ofQuote q) else .error .trailingContent := by
  have hall : ∀ c ∈ inner, (c != q) = true := by
    intro c hc
    have : c ≠ q := fun e => hi (e ▸ hc)
    simpa using this
  have htake : (inner ++ q :: after).takeWhile (· != q) = inner := by
    rw [List.takeWhile_append_of_pos hall]; simp
  have hdrop : (inner ++ q :: after).dropWhile (· != q) = q :: after := by
    rw [List.dropWhile_append_of_pos hall]; simp
  cases after with
  | nil => simp [unquote, hq, htake, hdrop]
  | cons a after => simp [unquote, hq, hdrop]

theorem unquote_open {q : UInt8} (hq : q = Byte.dquote ∨ q = Byte.squote) {rest : Bytes}
    (hr : q ∉ rest) : unquote (q :: rest) = .error (unterminated q) := by
  simp [unquote, hq, hr]

theorem unquote_plain {v : Bytes} (hd : v.head? ≠ some Byte.dquote)
    (hs : v.head? ≠ some Byte.squote) :
    unquote v = if v.any isBadUnquoted then .error .valueInvalidChar else .ok (v, .plain) := by
  cases v with
  | nil => rfl
  | cons q rest =>
      have hq : ¬ (q = Byte.dquote ∨ q = Byte.squote) := by
        rintro (rfl | rfl)
        · exact hd rfl
        · exact hs rfl
      simp only [unquote, if_neg hq]

/-- The three shapes of a value, as far as quoting goes. -/
theorem value_shape (v : Bytes) :
    (v.head? ≠ some Byte.dquote ∧ v.head? ≠ some Byte.squote) ∨
    (∃ q rest, v = q :: rest ∧ (q = Byte.dquote ∨ q = Byte.squote) ∧ q ∉ rest) ∨
    ∃ q inner after, v = q :: (inner ++ q :: after) ∧ (q = Byte.dquote ∨ q = Byte.squote) ∧
      q ∉ inner := by
  cases v with
  | nil => exact Or.inl (by simp)
  | cons q rest =>
      by_cases hq : q = Byte.dquote ∨ q = Byte.squote
      · rcases split_first q rest with h | ⟨inner, after, rfl, hi⟩
        · exact Or.inr (Or.inl ⟨q, rest, rfl, hq, h⟩)
        · exact Or.inr (Or.inr ⟨q, inner, after, rfl, hq, hi⟩)
      · rw [not_or] at hq
        exact Or.inl (by simpa using hq)

/-- An accepted value is the payload, or the payload in quotes. -/
theorem unquote_ok {v w : Bytes} {quoting : Quoting} (h : unquote v = .ok (w, quoting)) :
    (quoting = .plain ∧ v = w ∧ v.any isBadUnquoted = false) ∨
      ∃ q, (q = Byte.dquote ∨ q = Byte.squote) ∧ quoting = .ofQuote q ∧ v = q :: (w ++ [q]) ∧
        q ∉ w := by
  rcases value_shape v with ⟨hd, hs⟩ | ⟨q, rest, rfl, hq, hr⟩ | ⟨q, inner, after, rfl, hq, hi⟩
  · rw [unquote_plain hd hs] at h
    split at h
    · cases h
    · obtain ⟨rfl, rfl⟩ := Prod.mk.inj (Except.ok.inj h)
      exact Or.inl ⟨rfl, rfl, Bool.not_eq_true _ ▸ ‹¬ v.any isBadUnquoted = true›⟩
  · rw [unquote_open hq hr] at h
    cases h
  · rw [unquote_quoted hq hi] at h
    split at h
    · obtain ⟨rfl, rfl⟩ := Prod.mk.inj (Except.ok.inj h)
      subst ‹after = []›
      exact Or.inr ⟨q, hq, rfl, rfl, hi⟩
    · cases h

theorem ofQuote_ne_plain (q : UInt8) : Quoting.ofQuote q ≠ .plain := by
  rw [Quoting.ofQuote]
  split <;> decide

theorem squote_iff {v w : Bytes} {quoting : Quoting} (h : unquote v = .ok (w, quoting)) :
    (v.head? == some Byte.squote) = true ↔ quoting = .single := by
  rw [beq_iff_eq]
  rcases unquote_ok h with ⟨rfl, rfl, hgood⟩ | ⟨q, hq, rfl, rfl, -⟩
  · refine iff_of_false (fun he => ?_) (by rintro ⟨⟩)
    exact absurd (List.any_eq_false.mp hgood _ (List.mem_of_mem_head? he)) (by decide)
  · rw [List.head?_cons, Option.some.injEq]
    rcases hq with rfl | rfl <;> decide

theorem unquote_error {v : Bytes} {code : Code} (h : unquote v = .error code) :
    code = .valueInvalidChar ∨ code = .trailingContent ∨ code = .doubleQuoteUnterminated ∨
      code = .singleQuoteUnterminated := by
  rcases value_shape v with ⟨hd, hs⟩ | ⟨q, rest, rfl, hq, hr⟩ | ⟨q, inner, after, rfl, hq, hi⟩
  · rw [unquote_plain hd hs] at h
    split at h
    · exact Or.inl (Except.error.inj h).symm
    · cases h
  · rw [unquote_open hq hr] at h
    have := Except.error.inj h
    subst this
    rcases hq with rfl | rfl
    · exact Or.inr (Or.inr (Or.inl rfl))
    · exact Or.inr (Or.inr (Or.inr rfl))
  · rw [unquote_quoted hq hi] at h
    split at h
    · cases h
    · exact Or.inr (Or.inl (Except.error.inj h).symm)

/-! ## Accepted lines -/

section Accepted

variable {line k v : Bytes} {quoting : Quoting}

theorem startsBlank_of_unquote {raw : Bytes} (h : unquote raw = .ok (v, quoting)) :
    startsBlank raw = false := by
  rcases unquote_ok h with ⟨-, rfl, hgood⟩ | ⟨q, hq, -, rfl, -⟩
  · cases raw with
    | nil => rfl
    | cons c raw =>
        have hc := List.any_eq_false.mp hgood c List.mem_cons_self
        rw [startsBlank, List.head?_cons, Option.any_some]
        rw [isBadUnquoted, Bool.or_assoc, Bool.or_assoc, Bool.or_eq_true, not_or] at hc
        exact Bool.eq_false_iff.mpr hc.1
  · rcases hq with rfl | rfl <;> rfl

theorem referenceNative_accepted :
    referenceNative line = .accepted k v quoting ↔
      k ≠ [] ∧ k.head? ≠ some Byte.hash ∧ Byte.equals ∉ k ∧ line = k ++ Byte.equals :: v ∧
        quoting = .plain := by
  rw [referenceNative, lineOutcome, assignmentOutcome]
  constructor
  · intro h
    split at h
    · cases h
    rename_i hskip
    rcases line_shape line with ⟨-, hsplit⟩ | ⟨k', v', rfl, hk, hsplit⟩
    · rw [hsplit] at h
      cases h
    · rw [hsplit] at h
      simp only [nativeAssignment] at h
      split at h
      · cases h
      rename_i hne
      obtain ⟨rfl, rfl, rfl⟩ := Outcome.accepted.inj h
      rw [isSkipped_assignment hne, beq_iff_eq] at hskip
      exact ⟨hne, hskip, hk, rfl, rfl⟩
  · rintro ⟨hne, hhash, hk, rfl, rfl⟩
    rw [isSkipped_assignment hne, if_neg (by rwa [beq_iff_eq]), splitEquals_append hk]
    simp only [nativeAssignment, if_neg hne]

theorem referenceShell_accepted :
    referenceShell line = .accepted k v quoting ↔
      isName k = true ∧ ∃ raw, line = k ++ Byte.equals :: raw ∧
        unquote raw = .ok (v, quoting) := by
  rw [referenceShell, lineOutcome, assignmentOutcome]
  constructor
  · intro h
    split at h
    · cases h
    rcases line_shape line with ⟨-, hsplit⟩ | ⟨k', raw, rfl, hk, hsplit⟩
    · rw [hsplit] at h
      cases h
    · rw [hsplit] at h
      simp only [shellAssignment] at h
      split at h
      · cases h
      split at h
      · cases h
      split at h
      · cases h
      rename_i hname
      rw [Bool.not_eq_true', Bool.not_eq_false] at hname
      cases hu : unquote raw with
      | error code =>
          rw [hu] at h
          cases h
      | ok p =>
          rw [hu] at h
          obtain ⟨rfl, rfl, rfl⟩ := Outcome.accepted.inj h
          exact ⟨hname, raw, rfl, hu⟩
  · rintro ⟨hname, raw, rfl, hu⟩
    rw [not_skipped_of_isName hname, if_neg Bool.false_ne_true,
      splitEquals_append (equals_not_mem_of_isName hname)]
    simp only [shellAssignment, keyFault_of_isName hname, startsBlank_of_unquote hu, hname, hu]
    rfl

/-- A shell assignment is accepted, or it is rejected: for its key or for its
value. -/
theorem shellAssignment_cases (k raw : Bytes) :
    (isName k = true ∧ ∃ v quoting, unquote raw = .ok (v, quoting) ∧
      shellAssignment k raw = .accepted k v quoting) ∨
    ((isName k = false ∨ ∃ fault, unquote raw = .error fault) ∧
      ∃ code, shellAssignment k raw = .rejected code) := by
  rw [shellAssignment]
  cases hfault : keyFault k with
  | some code =>
      refine Or.inr ⟨Or.inl (Bool.eq_false_iff.mpr ?_), code, rfl⟩
      intro hname
      rw [keyFault_of_isName hname] at hfault
      cases hfault
  | none =>
      cases hu : unquote raw with
      | error fault =>
          refine Or.inr ⟨Or.inr ⟨fault, rfl⟩, ?_⟩
          cases startsBlank raw with
          | true => exact ⟨_, rfl⟩
          | false => cases isName k <;> exact ⟨_, rfl⟩
      | ok p =>
          rw [startsBlank_of_unquote hu]
          cases hname : isName k with
          | true => exact Or.inl ⟨rfl, p.1, p.2, rfl, rfl⟩
          | false => exact Or.inr ⟨Or.inl rfl, _, rfl⟩

end Accepted

/-! ## Rejected lines -/

/-- The codes of lines that are assignments. -/
def Code.isAssignmentCode : Code → Bool
  | emptyKey | keyInvalid | keyLeadingWhitespace | keyTrailingWhitespace
  | valueLeadingWhitespace | valueInvalidChar | singleQuoteUnterminated
  | doubleQuoteUnterminated | trailingContent => true
  | _ => false

section Rejected

variable {k v : Bytes} {code : Code}

theorem keyFault_rejected (h : keyFault k = some code) : code.isAssignmentCode = true := by
  rcases keyFault_code h with rfl | rfl | rfl <;> rfl

theorem ofValue_rejected (h : Outcome.ofValue k (unquote v) = .rejected code) :
    code.isAssignmentCode = true := by
  cases hu : unquote v with
  | ok p =>
      rw [hu] at h
      cases h
  | error fault =>
      rw [hu] at h
      obtain rfl := Outcome.rejected.inj h
      rcases unquote_error hu with rfl | rfl | rfl | rfl <;> rfl

theorem nativeAssignment_rejected (h : nativeAssignment k v = .rejected code) :
    code.isAssignmentCode = true := by
  rw [nativeAssignment] at h
  split at h
  · obtain rfl := Outcome.rejected.inj h
    rfl
  · cases h

theorem shellAssignment_rejected (h : shellAssignment k v = .rejected code) :
    code.isAssignmentCode = true := by
  rw [shellAssignment] at h
  split at h
  · obtain rfl := Outcome.rejected.inj h
    exact keyFault_rejected ‹_›
  split at h
  · obtain rfl := Outcome.rejected.inj h
    rfl
  split at h
  · obtain rfl := Outcome.rejected.inj h
    rfl
  · exact ofValue_rejected h

theorem assignmentOutcome_rejected {f : Bytes → Bytes → Outcome} {line : Bytes}
    (hf : ∀ k v, f k v = .rejected code → code.isAssignmentCode = true)
    (h : assignmentOutcome f line = .rejected code) :
    (code = .noEquals ∧ Byte.equals ∉ line) ∨ code.isAssignmentCode = true := by
  rw [assignmentOutcome] at h
  split at h
  · exact Or.inl ⟨(Outcome.rejected.inj h).symm, splitEquals_none.mp ‹_›⟩
  · exact Or.inr (hf _ _ h)

theorem reference_rejected {native : Bool} {line : Bytes}
    (h : reference native line = .rejected code) : code.isRecordCode = true := by
  have hassign : ∀ k v, assignment native k v = .rejected code → code.isAssignmentCode = true := by
    intro k v h
    cases native with
    | true => exact nativeAssignment_rejected h
    | false => exact shellAssignment_rejected h
  rw [reference_eq] at h
  split at h
  · cases h
  rcases assignmentOutcome_rejected hassign h with ⟨rfl, -⟩ | hcode
  · rfl
  · revert hcode
    cases code <;> decide

end Rejected

end Envfile

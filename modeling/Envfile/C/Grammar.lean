/-
# `Envfile.C.Grammar` — the lines `parse_shell` accepts

`ShellLine` is the grammar of `shell/README.md`: a shell name, an `=`, and a
value that is bare, in single quotes or in double quotes.  It says what an
assignment looks like and nothing of how one is found: no first `=`, no first
closing quote, no order of tests.

`parseShell` answers OK on exactly these lines, and then its slices are the
name and the value without its quotes.
-/
import Envfile.C.Classify

namespace Envfile.C

/-! ## The grammar -/

/-- A value as it is written, the payload, and the form. -/
inductive ShellValue : Bytes → Bytes → EnvfileValueKind → Prop where
  | plain {w : Bytes}
      (h : ∀ c ∈ w, c ≠ Byte.space ∧ c ≠ Byte.tab ∧ c ≠ Byte.squote ∧ c ≠ Byte.dquote ∧
        c ≠ Byte.backslash) : ShellValue w w .plain
  | singleQuoted {v : Bytes} (h : Byte.squote ∉ v) :
      ShellValue (Byte.squote :: (v ++ [Byte.squote])) v .singleQuoted
  | doubleQuoted {v : Bytes} (h : Byte.dquote ∉ v) :
      ShellValue (Byte.dquote :: (v ++ [Byte.dquote])) v .doubleQuoted

/-- `line` is the assignment of `value`, written in the form `kind`, to `key`. -/
def ShellLine (line key value : Bytes) (kind : EnvfileValueKind) : Prop :=
  Byte.nul ∉ line ∧ isName key = true ∧
    ∃ w, line = key ++ Byte.equals :: w ∧ ShellValue w value kind

/-- What an accepted line is reported as. -/
structure Reported (line : Bytes) (answer : EnvfileStatus × EnvfileRecord) (key value : Bytes)
    (kind : EnvfileValueKind) : Prop where
  status : answer.1 = .ok
  key : bytesAt line answer.2.key answer.2.keyLen = key
  value : bytesAt line answer.2.value answer.2.valueLen = value
  kind : answer.2.valueKind = kind

/-! ## Values -/

theorem not_any_isBadUnquoted {w : Bytes} :
    w.any Envfile.isBadUnquoted = false ↔
      ∀ c ∈ w, c ≠ Byte.space ∧ c ≠ Byte.tab ∧ c ≠ Byte.squote ∧ c ≠ Byte.dquote ∧
        c ≠ Byte.backslash := by
  simp only [List.any_eq_false, Envfile.isBadUnquoted, isBlank, Bool.or_eq_true, beq_iff_eq,
    not_or, and_assoc]

theorem unquote_eq_ok_iff {w value : Bytes} {quoting : Quoting} :
    unquote w = .ok (value, quoting) ↔ ShellValue w value (.ofQuoting quoting) := by
  constructor
  · intro h
    rcases unquote_ok h with ⟨rfl, rfl, hgood⟩ | ⟨q, hq, rfl, rfl, hvalue⟩
    · exact .plain (not_any_isBadUnquoted.mp hgood)
    · rcases hq with rfl | rfl
      · exact .doubleQuoted hvalue
      · exact .singleQuoted hvalue
  · generalize hkind : EnvfileValueKind.ofQuoting quoting = kind
    intro h
    cases h with
    | plain h =>
        obtain rfl : quoting = .plain := by cases quoting <;> first | rfl | cases hkind
        have hquote : ∀ q : UInt8, q = Byte.dquote ∨ q = Byte.squote → w.head? ≠ some q := by
          intro q hq hhead
          have hgood := h q (List.mem_of_mem_head? hhead)
          exact hq.elim hgood.2.2.2.1 hgood.2.2.1
        rw [unquote_plain (hquote _ (Or.inl rfl)) (hquote _ (Or.inr rfl)),
          not_any_isBadUnquoted.mpr h]
        rfl
    | singleQuoted h =>
        obtain rfl : quoting = .single := by cases quoting <;> first | rfl | cases hkind
        rw [unquote_quoted (Or.inr rfl) h, if_pos rfl]
        rfl
    | doubleQuoted h =>
        obtain rfl : quoting = .double := by cases quoting <;> first | rfl | cases hkind
        rw [unquote_quoted (Or.inl rfl) h, if_pos rfl]
        rfl

/-! ## Lines -/

/-- A shell name in front of the `=` leaves C and the reference nothing to
disagree on. -/
theorem not_keyAndValue_of_isName {key : Bytes} (hkey : isName key = true) (w : Bytes) :
    ¬ KeyAndValue (key ++ Byte.equals :: w) := by
  rintro ⟨-, -, key', v, hline, hequals, -, hname, -⟩
  obtain ⟨rfl, -⟩ := split_unique (equals_not_mem_of_isName hkey) hequals hline
  rw [hkey] at hname
  cases hname

theorem shellOutcome_accepted {line key value : Bytes} {quoting : Quoting} :
    shellOutcome line = .accepted key value quoting ↔
      ShellLine line key value (.ofQuoting quoting) := by
  constructor
  · intro h
    have haccepted : outcome false line = .accepted key value quoting := h
    obtain ⟨-, hnul, w, rfl, -, -, hname, -, hvalue⟩ := outcome_accepted haccepted
    exact ⟨hnul, hname, w, rfl, unquote_eq_ok_iff.mp hvalue⟩
  · rintro ⟨hnul, hname, w, rfl, hvalue⟩
    rw [shellOutcome_eq hnul (not_keyAndValue_of_isName hname w), referenceShell_accepted]
    exact ⟨hname, w, rfl, unquote_eq_ok_iff.mpr hvalue⟩

theorem answer_status_ok {o : Outcome} :
    (answer o).1 = .ok ↔ ∃ key value quoting, o = .accepted key value quoting := by
  cases o with
  | skipped =>
      refine iff_of_false ?_ ?_
      · rintro ⟨⟩
      · rintro ⟨_, _, _, ⟨⟩⟩
  | rejected code =>
      refine iff_of_false ?_ ?_
      · cases code <;> rintro ⟨⟩
      · rintro ⟨_, _, _, ⟨⟩⟩
  | accepted key value quoting => exact ⟨fun _ => ⟨key, value, quoting, rfl⟩, fun _ => rfl⟩

theorem reported_of_accepted {line key value : Bytes} {quoting : Quoting}
    (h : shellOutcome line = .accepted key value quoting) :
    Reported line (parseShell line) key value (.ofQuoting quoting) := by
  have haccepted : outcome false line = .accepted key value quoting := h
  obtain ⟨hkey, hvalue⟩ := slices_of_accepted haccepted
  rw [parseShell_eq, h]
  exact ⟨rfl, hkey, hvalue, rfl⟩

theorem ofQuoting_surjective (kind : EnvfileValueKind) : ∃ quoting, .ofQuoting quoting = kind := by
  cases kind with
  | plain => exact ⟨.plain, rfl⟩
  | singleQuoted => exact ⟨.single, rfl⟩
  | doubleQuoted => exact ⟨.double, rfl⟩

/-- OK means a line of the grammar, and what is reported of it is its name, its
value without the quotes and its form. -/
theorem parseShell_ok_iff (line : Bytes) :
    ((parseShell line).1 = .ok ↔ ∃ key value kind, ShellLine line key value kind) ∧
    ∀ key value kind, Reported line (parseShell line) key value kind ↔
      ShellLine line key value kind := by
  refine ⟨⟨?_, ?_⟩, ?_⟩
  · intro hok
    rw [parseShell_eq] at hok
    obtain ⟨key, value, quoting, h⟩ := answer_status_ok.mp hok
    exact ⟨key, value, _, shellOutcome_accepted.mp h⟩
  · rintro ⟨key, value, kind, h⟩
    obtain ⟨quoting, rfl⟩ := ofQuoting_surjective kind
    exact (reported_of_accepted (shellOutcome_accepted.mpr h)).status
  · intro key value kind
    constructor
    · intro hreported
      have hok := hreported.status
      rw [parseShell_eq] at hok
      obtain ⟨key', value', quoting, h⟩ := answer_status_ok.mp hok
      have hreported' := reported_of_accepted h
      rw [← hreported.key, ← hreported.value, ← hreported.kind, hreported'.key,
        hreported'.value, hreported'.kind]
      exact shellOutcome_accepted.mp h
    · intro h
      obtain ⟨quoting, rfl⟩ := ofQuoting_surjective kind
      exact reported_of_accepted (shellOutcome_accepted.mpr h)

end Envfile.C

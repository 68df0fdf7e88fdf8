/-
# `Envfile.Compare.RustCr` — what the Rust program makes of a CR

With `ENVFILE_CRLF=ignore` no CR is converted.  The Rust loop still takes the
CR off the end of a line before it looks at the value in shell format, and the
reference does not.  A CR elsewhere in a line is the same to both.

So the Rust program accepts and dumps what the reference does exactly when no
line of the file is a well-formed assignment followed by a CR
(`crIgnored_iff`): of a bare value the CR is lost, and behind a closing quote it
goes unnoticed.
-/
import Envfile.Awk.Files
import Envfile.Compare.Classifier
import Envfile.Compare.NulIgnored
import Envfile.Port.Classify
import Envfile.Rust.Runs
import Mathlib.Algebra.Order.BigOperators.Group.List
import Mathlib.Algebra.Order.Group.Nat

namespace Envfile

/-! ## One line -/

/-- A well-formed assignment in front of a CR. -/
def CrAssignment (line : Bytes) : Prop :=
  ∃ k w, isName k = true ∧ WellQuoted w ∧ line = k ++ Byte.equals :: (w ++ [Byte.cr])

/-- An accepted value in front of a CR: a bare one keeps the CR, a quoted one is
followed by it. -/
theorem unquote_cr_of_ok {w v : Bytes} {quoting : Quoting} (h : unquote w = .ok (v, quoting)) :
    unquote (w ++ [Byte.cr]) = .ok (v ++ [Byte.cr], .plain) ∨
      unquote (w ++ [Byte.cr]) = .error .trailingContent := by
  rcases unquote_ok h with ⟨-, rfl, hgood⟩ | ⟨q, hq, -, rfl, hv⟩
  · have hgood' : (w ++ [Byte.cr]).any isBadUnquoted = false := by
      rw [List.any_append, hgood]
      rfl
    have hquote : ∀ q, isBadUnquoted q = true → (w ++ [Byte.cr]).head? ≠ some q := by
      intro q hbad hhead
      exact List.any_eq_false.mp hgood' q (List.mem_of_mem_head? hhead) hbad
    rw [unquote_plain (hquote _ rfl) (hquote _ rfl), hgood', if_neg Bool.false_ne_true]
    exact Or.inl rfl
  · have hcons : q :: (v ++ [q]) ++ [Byte.cr] = q :: (v ++ q :: [Byte.cr]) := by simp
    rw [hcons, unquote_quoted hq hv, if_neg (List.cons_ne_nil _ _)]
    exact Or.inr rfl

theorem wellQuoted_of_concat_cr {w : Bytes} (h : WellQuoted (w ++ [Byte.cr])) : WellQuoted w := by
  rcases h with hgood | ⟨q, v, hq, hw, -⟩
  · rw [List.any_append, Bool.or_eq_false_iff] at hgood
    exact Or.inl hgood.1
  · have hlast := congrArg List.getLast? hw
    rw [List.getLast?_concat, ← List.cons_append, List.getLast?_concat] at hlast
    obtain rfl := Option.some.inj hlast
    rcases hq with ⟨⟨⟩⟩ | ⟨⟨⟩⟩

/-- One outcome, or two codes for one line. -/
def Alike (o p : Outcome) : Prop :=
  o = p ∨ ((∃ code, o = .rejected code) ∧ ∃ code, p = .rejected code)

namespace Rust

/-- What the Rust program makes of a line in shell format. -/
def shellOutcome : Bytes → Outcome := Port.outcome port.isWhitespace false

theorem shellAssignment_alike (k v : Bytes) :
    Alike (Port.shellAssignment port.isWhitespace k v) (shellAssignment k v) := by
  have h : Port.shellAssignment port.isWhitespace k v = _ := Port.shellAssignment_isBlank k v
  split at h
  · refine Or.inr ⟨⟨_, h⟩, .emptyKey, ?_⟩
    rename_i hempty
    rw [hempty.1]
    rfl
  · exact Or.inl h

theorem shellOutcome_assignment {k raw : Bytes} (hk : Byte.equals ∉ k)
    (hskip : isSkipped (k ++ Byte.equals :: raw) = false) :
    shellOutcome (k ++ Byte.equals :: raw) =
        Port.shellAssignment port.isWhitespace k (trimCr raw) ∧
      referenceShell (k ++ Byte.equals :: raw) = shellAssignment k raw := by
  have hskip' : Port.isSkipped port.isWhitespace (k ++ Byte.equals :: raw) = false := by
    rw [← hskip]
    exact isSkipped_trimCr _
  rw [shellOutcome, Port.outcome, hskip', referenceShell, lineOutcome, hskip, assignmentOutcome,
    assignmentOutcome, splitEquals_append hk]
  exact ⟨rfl, rfl⟩

/-- A line that is no well-formed assignment in front of a CR is the same to
both. -/
theorem shellOutcome_alike {line : Bytes} (h : ¬ CrAssignment line) :
    Alike (shellOutcome line) (referenceShell line) := by
  have hskip : Port.isSkipped port.isWhitespace line = isSkipped line := isSkipped_trimCr line
  cases hs : isSkipped line with
  | true =>
      rw [shellOutcome, Port.outcome, hskip, referenceShell, lineOutcome, hs]
      exact Or.inl rfl
  | false =>
      rcases line_shape line with ⟨-, hsplit⟩ | ⟨k, raw, rfl, hk, -⟩
      · rw [shellOutcome, Port.outcome, hskip, referenceShell, lineOutcome, hs, assignmentOutcome,
          assignmentOutcome, hsplit]
        exact Or.inl rfl
      obtain ⟨ho, hr⟩ := shellOutcome_assignment hk hs
      rw [ho, hr]
      rcases cr_cases raw with ⟨w, rfl⟩ | hcr
      · rw [trimCr_concat_cr]
        -- neither accepts: the value is not well quoted, with and without the CR
        have hbad : isName k = false ∨ ¬ WellQuoted w := by
          by_contra hgood
          rw [not_or, Bool.not_eq_false, not_not] at hgood
          exact h ⟨k, w, hgood.1, hgood.2, rfl⟩
        have hrejected : ∀ v, (WellQuoted v → WellQuoted w) →
            ∃ code, shellAssignment k v = .rejected code := by
          intro v hv
          rcases shellAssignment_cases k v with ⟨hname, u, quoting, hu, -⟩ | ⟨-, hcode⟩
          · rcases hbad with hbad | hbad
            · rw [hname] at hbad
              cases hbad
            · exact absurd (hv (wellQuoted_iff.mpr ⟨u, quoting, hu⟩)) hbad
          · exact hcode
        obtain ⟨code, hcode⟩ := hrejected w id
        refine Or.inr ⟨?_, hrejected _ wellQuoted_of_concat_cr⟩
        rcases shellAssignment_alike k w with heq | ⟨hreject, -⟩
        · exact ⟨code, heq.trans hcode⟩
        · exact hreject
      · rw [trimCr_of_getLast? hcr]
        exact shellAssignment_alike k raw

/-- A well-formed assignment in front of a CR is accepted without the CR, where
the reference keeps it or rejects the line. -/
theorem shellOutcome_crAssignment {line : Bytes} (h : CrAssignment line) :
    ∃ k v quoting, shellOutcome line = .accepted k v quoting ∧
      ((∃ code, referenceShell line = .rejected code) ∨
        referenceShell line = .accepted k (v ++ [Byte.cr]) .plain) := by
  obtain ⟨k, w, hname, hwell, rfl⟩ := h
  obtain ⟨v, quoting, hu⟩ := wellQuoted_iff.mp hwell
  obtain ⟨ho, hr⟩ := shellOutcome_assignment (equals_not_mem_of_isName hname)
    (not_skipped_of_isName hname (w ++ [Byte.cr]))
  have haccepts : ∀ raw v quoting, unquote raw = .ok (v, quoting) →
      shellAssignment k raw = .accepted k v quoting := by
    intro raw v quoting hraw
    rcases shellAssignment_cases k raw with ⟨-, u, quoting', hu', hacc⟩ | ⟨hbad, -⟩
    · rw [hraw] at hu'
      obtain ⟨rfl, rfl⟩ := Prod.mk.inj (Except.ok.inj hu')
      exact hacc
    · rw [hname, hraw] at hbad
      rcases hbad with ⟨⟨⟩⟩ | ⟨_, ⟨⟩⟩
  refine ⟨k, v, quoting, ?_, ?_⟩
  · rw [ho, trimCr_concat_cr]
    rcases shellAssignment_alike k w with heq | ⟨-, code, hcode⟩
    · exact heq.trans (haccepts w v quoting hu)
    · rw [haccepts w v quoting hu] at hcode
      cases hcode
  · rw [hr]
    rcases unquote_cr_of_ok hu with hcr | hcr
    · exact Or.inr (haccepts _ _ _ hcr)
    · refine Or.inl ?_
      rcases shellAssignment_cases k (w ++ [Byte.cr]) with ⟨-, u, quoting', hu', -⟩ | ⟨-, hcode⟩
      · rw [hcr] at hu'
        cases hu'
      · exact hcode

end Rust

/-! ## Whole files -/

/-- Shell format, every byte of the file as it is, and the bindings dumped. -/
structure Knobs.DumpsAsIs (cfg : Knobs) : Prop where
  shell : cfg.native = false
  action : cfg.action = some .dump
  bom : cfg.bom = .literal
  crlf : cfg.crlfStrip = false
  cont : cfg.contAccept = false

def dumpKnobs : Knobs := { validateKnobs with action := some .dump }

section Files

variable {cfg : Knobs} (hcfg : cfg.DumpsAsIs) {f : Bytes} (hnul : Byte.nul ∉ f) (path : Bytes)

include hcfg hnul

theorem Rust.processFile_dump (env : Rust.EnvMap) :
    (Rust.processFile cfg path f env).2 =
      ((Lines.number 0 (Lines.lines Byte.nl f)).map fun p =>
        Out.hand p.1 p.2 + (Rust.port.record cfg path p.2 (Rust.shellOutcome p.1) env).2).sum := by
  have hread : Rust.readLines cfg f = .ok (Lines.lines Byte.nl f) := by
    have hpass : ∀ ls : List Bytes, Rust.bomPass cfg ls = .ok ls := by
      intro ls
      cases ls with
      | nil => rfl
      | cons l ls =>
          rw [Rust.bomPass, hcfg.bom]
          split <;> rfl
    have hcontains : f.contains Byte.nul = false := by
      rw [Bool.eq_false_iff, ne_eq, List.contains_iff_mem]
      exact hnul
    rw [Rust.readLines, hcontains, Bool.and_false, if_neg Bool.false_ne_true, hpass,
      Rust.splitLines_eq, hcfg.crlf]
    rfl
  have hact : cfg.action ≠ some .normalize := by rw [hcfg.action]; rintro ⟨⟩
  rw [Rust.processFile, hread]
  simp only [hcfg.cont, Bool.false_eq_true, if_false, Rust.numberLines_eq]
  refine congrArg Prod.snd (Step.run_eq_sum ?_ env)
  intro p _ s
  rw [Rust.processLine, Port.processLine_eq _ _ _ _ hact, hcfg.shell, Step.prepend,
    Port.record_dump _ _ _ _ hcfg.action, Port.record_dump _ _ _ _ hcfg.action]
  rfl

theorem Awk.normalize_dump (array : Awk.EnvArray) :
    (Awk.normalize cfg (.readable path f) array).2 =
      ((Lines.number 0 (Lines.lines Byte.nl f)).map fun p =>
        Out.hand p.1 p.2 + (Awk.record cfg path p.2 (referenceShell p.1) array).2).sum := by
  have hread : Awk.readLines cfg (.readable path f) = .ok (Lines.lines Byte.nl f) := by
    rw [Awk.readLines_eq, if_neg (fun h => hnul h.2), Awk.bomPass_lines, hcfg.bom, hcfg.crlf]
    cases bomBytes.isPrefixOf f <;> rfl
  rw [Awk.normalize_records hcfg.action path f hread, Meaning.logical, hcfg.cont,
    if_neg Bool.false_ne_true, hcfg.shell]
  rfl

end Files

/-- The same lines are rejected, and the same bindings are dumped; the value
that is the one byte 0x01 is the reference's mark of an error, and it dumps no
such value. -/
structure CrIgnored (path f : Bytes) : Prop where
  rejected : ∀ (cfg : Knobs) (env : Rust.EnvMap) (array : Awk.EnvArray), cfg.DumpsAsIs →
    (Rust.processFile cfg path f env).2.diags.map Diag.lineNo =
      (Awk.normalize cfg (.readable path f) array).2.diags.map Diag.lineNo
  dumped : ∀ (cfg : Knobs) (env : Rust.EnvMap) (array : Awk.EnvArray), cfg.DumpsAsIs →
    (Rust.processFile cfg path f env).2.stdout.filter (fun b => b.2 != Awk.sentinel) =
      (Awk.normalize cfg (.readable path f) array).2.stdout

section Lines

variable {path f : Bytes}

/-- A file's lines, each with its number. -/
def numbered (f : Bytes) : List (Bytes × Nat) := Lines.number 0 (Lines.lines Byte.nl f)

/-- The two programs agree on a file by what the outcomes of its lines are. -/
theorem crIgnored_outcomes (path : Bytes) (hnul : Byte.nul ∉ f) :
    CrIgnored path f ↔
      ((numbered f).flatMap fun p => (Rust.shellOutcome p.1).codes.map fun _ => some p.2) =
        ((numbered f).flatMap fun p => (referenceShell p.1).codes.map fun _ => some p.2) ∧
      ((numbered f).flatMap fun p =>
          (Rust.shellOutcome p.1).bindings.filter fun b => b.2 != Awk.sentinel) =
        ((numbered f).flatMap fun p =>
          (referenceShell p.1).bindings.filter fun b => b.2 != Awk.sentinel) := by
  have hrust : ∀ (cfg : Knobs) (env : Rust.EnvMap), cfg.DumpsAsIs →
      (Rust.processFile cfg path f env).2.diags.map Diag.lineNo =
          ((numbered f).flatMap fun p => (Rust.shellOutcome p.1).codes.map fun _ => some p.2) ∧
        (Rust.processFile cfg path f env).2.stdout.filter (fun b => b.2 != Awk.sentinel) =
          ((numbered f).flatMap fun p =>
            (Rust.shellOutcome p.1).bindings.filter fun b => b.2 != Awk.sentinel) := by
    intro cfg env hcfg
    rw [Rust.processFile_dump hcfg hnul, Out.diags_sum, Out.stdout_sum]
    simp only [List.flatMap_map, List.map_flatMap, List.filter_flatMap,
      Port.record_dump _ _ _ _ hcfg.action, Out.add_diags, Out.add_stdout, Out.hand_diags,
      Out.hand_stdout, List.nil_append, List.map_map]
    exact ⟨rfl, rfl⟩
  have hawk : ∀ (cfg : Knobs) (array : Awk.EnvArray), cfg.DumpsAsIs →
      (Awk.normalize cfg (.readable path f) array).2.diags.map Diag.lineNo =
          ((numbered f).flatMap fun p => (referenceShell p.1).codes.map fun _ => some p.2) ∧
        (Awk.normalize cfg (.readable path f) array).2.stdout =
          ((numbered f).flatMap fun p =>
            (referenceShell p.1).bindings.filter fun b => b.2 != Awk.sentinel) := by
    intro cfg array hcfg
    rw [Awk.normalize_dump hcfg hnul, Out.diags_sum, Out.stdout_sum]
    simp only [List.flatMap_map, List.map_flatMap, Awk.record_dump hcfg.action, Out.add_diags,
      Out.add_stdout, Out.hand_diags, Out.hand_stdout, List.nil_append, List.map_map]
    exact ⟨rfl, rfl⟩
  constructor
  · intro h
    have hcfg : Knobs.DumpsAsIs dumpKnobs := ⟨rfl, rfl, rfl, rfl, rfl⟩
    refine ⟨?_, ?_⟩
    · rw [← (hrust dumpKnobs ∅ hcfg).1, ← (hawk dumpKnobs ∅ hcfg).1]
      exact h.rejected dumpKnobs ∅ ∅ hcfg
    · rw [← (hrust dumpKnobs ∅ hcfg).2, ← (hawk dumpKnobs ∅ hcfg).2]
      exact h.dumped dumpKnobs ∅ ∅ hcfg
  · rintro ⟨hcodes, hbindings⟩
    refine ⟨?_, ?_⟩
    · intro cfg env array hcfg
      rw [(hrust cfg env hcfg).1, (hawk cfg array hcfg).1, hcodes]
    · intro cfg env array hcfg
      rw [(hrust cfg env hcfg).2, (hawk cfg array hcfg).2, hbindings]

theorem codes_length_le (line : Bytes) :
    (Rust.shellOutcome line).codes.length ≤ (referenceShell line).codes.length := by
  by_cases hline : CrAssignment line
  · obtain ⟨k, v, quoting, ho, -⟩ := Rust.shellOutcome_crAssignment hline
    rw [ho]
    exact Nat.zero_le _
  · rcases Rust.shellOutcome_alike hline with heq | ⟨⟨_, ho⟩, _, hr⟩
    · rw [heq]
    · rw [ho, hr]
      exact Nat.le_refl 1

/-- The bytes that dumping an outcome takes. -/
def dumped (o : Outcome) : Nat :=
  ((o.bindings.filter fun b => b.2 != Awk.sentinel).flatMap Binding.text).length

theorem dumped_of_alike {o p : Outcome} (h : Alike o p) : dumped o = dumped p := by
  rcases h with rfl | ⟨⟨_, rfl⟩, _, rfl⟩ <;> rfl

/-- The CR that the reference keeps makes its line longer. -/
theorem dumped_lt (k v : Bytes) (quoting quoting' : Quoting) :
    dumped (.accepted k v quoting) < dumped (.accepted k (v ++ [Byte.cr]) quoting') := by
  have hne : (v ++ [Byte.cr] != Awk.sentinel) = true := by
    rw [bne_iff_ne]
    intro h
    have hlast := congrArg List.getLast? h
    rw [List.getLast?_concat] at hlast
    cases hlast
  have hkept : dumped (.accepted k (v ++ [Byte.cr]) quoting') =
      (Binding.text (k, v ++ [Byte.cr])).length := by
    rw [dumped, Outcome.bindings, List.filter_cons, if_pos hne]
    simp
  have hle : dumped (.accepted k v quoting) ≤ (Binding.text (k, v)).length := by
    rw [dumped, Outcome.bindings, List.filter_cons]
    split
    · simp
    · exact Nat.zero_le _
  rw [hkept]
  refine lt_of_le_of_lt hle ?_
  simp [Binding.text]

/-- Where the programs agree, no line is a well-formed assignment in front of a
CR: as many lines are rejected and as many bytes are dumped. -/
theorem not_crAssignment (hnul : Byte.nul ∉ f) (h : CrIgnored path f) :
    ∀ line ∈ Lines.lines Byte.nl f, ¬ CrAssignment line := by
  obtain ⟨hcodes, hbindings⟩ := (crIgnored_outcomes path hnul).mp h
  intro line hline hcr
  obtain ⟨p, hp, rfl⟩ : ∃ p ∈ numbered f, p.1 = line := by
    rw [← Lines.number_fst (Lines.lines Byte.nl f) 0] at hline
    exact List.mem_map.mp hline
  -- as many lines are rejected, so none is that the other program accepts
  have hrejected : ∀ q ∈ numbered f, (referenceShell q.1).codes.length ≤
      (Rust.shellOutcome q.1).codes.length := by
    intro q hq
    by_contra hlt
    have hlen := congrArg List.length hcodes
    rw [List.length_flatMap, List.length_flatMap] at hlen
    simp only [List.length_map] at hlen
    refine absurd hlen (ne_of_lt (List.sum_lt_sum _ _ ?_ ⟨q, hq, Nat.lt_of_not_le hlt⟩))
    exact fun r _ => codes_length_le r.1
  -- so that the reference keeps every CR that the Rust program takes off
  have hkept : ∀ q ∈ numbered f, CrAssignment q.1 →
      dumped (Rust.shellOutcome q.1) < dumped (referenceShell q.1) := by
    intro q hq hqcr
    obtain ⟨k, v, quoting, ho, ⟨code, hr⟩ | hr⟩ := Rust.shellOutcome_crAssignment hqcr
    · have hle := hrejected q hq
      rw [ho, hr] at hle
      exact absurd hle (Nat.not_succ_le_zero 0)
    · rw [ho, hr]
      exact dumped_lt k v quoting .plain
  have hlen := congrArg (fun bs => (bs.flatMap Binding.text).length) hbindings
  simp only [List.flatMap_assoc, List.length_flatMap (l := numbered f)] at hlen
  refine absurd hlen (ne_of_lt (List.sum_lt_sum _ _ ?_ ⟨p, hp, hkept p hp hcr⟩))
  intro q hq
  by_cases hqcr : CrAssignment q.1
  · exact Nat.le_of_lt (hkept q hq hqcr)
  · exact Nat.le_of_eq (dumped_of_alike (Rust.shellOutcome_alike hqcr))

/-- With `ENVFILE_CRLF=ignore` the Rust program accepts and dumps what the
reference does exactly when no line is a well-formed assignment in front of a
CR. -/
theorem crIgnored_iff (path f : Bytes) (hnul : Byte.nul ∉ f) :
    CrIgnored path f ↔ ∀ line ∈ Lines.lines Byte.nl f, ¬ CrAssignment line := by
  constructor
  · exact not_crAssignment hnul
  · intro h
    rw [crIgnored_outcomes path hnul]
    have halike : ∀ p ∈ numbered f, Alike (Rust.shellOutcome p.1) (referenceShell p.1) :=
      fun p hp => Rust.shellOutcome_alike (h p.1 (Lines.mem_number hp))
    refine ⟨List.flatMap_congr ?_, List.flatMap_congr ?_⟩
    · intro p hp
      rcases halike p hp with heq | ⟨⟨_, ho⟩, _, hr⟩
      · rw [heq]
      · rw [ho, hr]
        rfl
    · intro p hp
      rcases halike p hp with heq | ⟨⟨_, ho⟩, _, hr⟩
      · rw [heq]
      · rw [ho, hr]
        rfl

/-- A file with CRs, of which none is behind a well-formed assignment. -/
theorem crIgnored_iff_cr :
    let f := ascii "=1\r\n# x\r\n\r\nB='2'\n"
    Byte.nul ∉ f ∧ (CrIgnored (ascii "a.env") f ↔
      ∀ line ∈ Lines.lines Byte.nl f, ¬ CrAssignment line) :=
  ⟨by decide, crIgnored_iff _ _ (by decide)⟩

/-- `A=1` and a CR: the reference has the value `1` and the CR, the Rust program
the value `1`. -/
theorem not_crIgnored : ¬ CrIgnored (ascii "a.env") (ascii "A=1\r\n") := by
  intro h
  refine not_crAssignment (by decide) h (ascii "A=1\r") (by decide) ?_
  exact ⟨ascii "A", ascii "1", by decide, Or.inl (by decide), by decide⟩

end Lines

end Envfile

/-
# `Envfile.Compare.Renumber` — line numbers behind a join

The reference gives a logical line the number of its last physical line.  The
Perl and the shell script join first and number the joined lines afterwards, so
behind the first join every number is too small.

They hand on what the reference hands on exactly when nothing is joined before
the last logical line is complete, that is when no physical line but the last
goes on, and the passes before leave the same lines: a file that is a BOM and
nothing else is an empty line to the reference and no line to the scripts, and
their CRLF pass overlooks empty lines (`Envfile.Compare.CrlfPass`).
-/
import Envfile.Awk.Joined
import Envfile.Compare.Classifier
import Envfile.Compare.CrlfPass
import Envfile.Perl.Classify

namespace Envfile

/-! ## The passes before -/

/-- The file is rejected for its BOM. -/
def rejectsBom (cfg : Knobs) (f : Bytes) : Bool := bomBytes.isPrefixOf f && cfg.bom == .reject

/-- What the BOM pass of the scripts leaves. -/
def withoutBom (cfg : Knobs) (f : Bytes) : Bytes :=
  if bomBytes.isPrefixOf f && cfg.bom == .strip then f.drop 3 else f

/-- What their CRLF pass leaves. -/
def scriptLines (cfg : Knobs) (f : Bytes) : List Bytes :=
  let lines := Lines.lines Byte.nl (withoutBom cfg f)
  if cfg.crlfStrip then if othersEndInCr lines then lines.map trimCr else lines else lines

/-- What the scripts hand on. -/
def renumbered (cfg : Knobs) (f : Bytes) : List (Bytes × Nat) :=
  if rejectsBom cfg f then []
  else Lines.number 0 ((joinFrom [] 0 (scriptLines cfg f)).map Prod.fst)

/-- Some line is empty, some is not, and those that are not end in a CR. -/
def OnlyEmptyLackCr (lines : List Bytes) : Prop :=
  [] ∈ lines ∧ (∃ l ∈ lines, l ≠ []) ∧ ∀ l ∈ lines, l ≠ [] → l.getLast? = some Byte.cr

section Crlf

variable {lines : List Bytes}

theorem othersEndInCr_of_forall (h : ∀ l ∈ lines, l ≠ [] → l.getLast? = some Byte.cr) :
    othersEndInCr lines = true := by
  rw [othersEndInCr, List.all_eq_true]
  intro l hl
  rw [Bool.or_eq_true, beq_iff_eq, beq_iff_eq]
  by_cases hnil : l = []
  · exact Or.inl hnil
  · exact Or.inr (h l hl hnil)

theorem Awk.stripCrlf_of_nil_mem (h : [] ∈ lines) : Awk.stripCrlf lines = lines := by
  rw [Awk.stripCrlf_eq, if_neg]
  intro hall
  cases List.all_eq_true.mp hall [] h

theorem stripCrlf_of_not_lack (h : ¬ OnlyEmptyLackCr lines) :
    (if othersEndInCr lines then lines.map trimCr else lines) = Awk.stripCrlf lines := by
  by_cases hidle : EmptyLinesIdle lines
  · rw [(othersEndInCr_iff lines).mpr hidle, Awk.allCrlf_eq, Awk.stripCrlf_eq]
  · -- all lines are empty, and the pass has nothing to take off
    rw [EmptyLinesIdle, not_or] at hidle
    obtain ⟨hnil, hothers⟩ := hidle
    have hcr : ∀ l ∈ lines, l ≠ [] → l.getLast? = some Byte.cr := by
      intro l hl hne
      by_contra hlast
      exact hothers ⟨l, hl, hne, hlast⟩
    have hmem : [] ∈ lines := by
      by_contra hno
      exact hnil fun l hl e => hno (e ▸ hl)
    have hempty : ∀ l ∈ lines, l = [] := by
      intro l hl
      by_contra hne
      exact h ⟨hmem, ⟨l, hl, hne⟩, hcr⟩
    rw [othersEndInCr_of_forall hcr, if_pos rfl, Awk.stripCrlf_of_nil_mem hmem]
    calc lines.map trimCr = lines.map id :=
          List.map_congr_left fun l hl => by rw [hempty l hl]; rfl
      _ = lines := List.map_id lines

/-- Where only the empty lines lack a CR, none goes on, and the scripts change
some of them. -/
theorem OnlyEmptyLackCr.lines_change (h : OnlyEmptyLackCr lines) :
    (∀ l ∈ lines, continues l = false) ∧ lines.map trimCr ≠ lines := by
  obtain ⟨_, ⟨m, hm, hne⟩, hcr⟩ := h
  constructor
  · intro l hl
    by_contra hcont
    obtain ⟨t, rfl⟩ := eq_concat_of_continues (Bool.not_eq_false _ ▸ hcont)
    have hlast := hcr _ hl (by simp)
    rw [List.getLast?_concat] at hlast
    cases hlast
  · intro heq
    have hall := List.map_inj_left.mp (heq.trans (List.map_id lines).symm)
    exact absurd (hcr m hm hne) (trimCr_eq_self.mp (hall m hm))

end Crlf

/-! ## What is handed on -/

section Handed

variable (cfg : Knobs) (path f : Bytes)

theorem take_bom (f : Bytes) : (f.take 3 == bomBytes) = bomBytes.isPrefixOf f :=
  take_beq bomBytes f

theorem Perl.handed_eq (hcont : cfg.contAccept = true) (hnul : Byte.nul ∉ f) (env : EnvHash) :
    (processFile cfg path f env).2.handed = renumbered cfg f := by
  have hindex : index f Byte.nul = none := memchr_eq_none.mpr hnul
  have hread : readLines cfg f =
      if rejectsBom cfg f then .error .fileBom else .ok (scriptLines cfg f) := by
    rw [readLines, hindex]
    simp only [Option.isSome_none, Bool.and_false, Bool.false_eq_true, if_false, take_bom,
      splitLines_eq, stripCrlf_eq]
    rfl
  rw [processFile, hread, renumbered]
  cases rejectsBom cfg f with
  | true => rfl
  | false =>
      simp only [Bool.false_eq_true, if_false]
      rw [(isBody_validateLine cfg path).handed_run, numberLines_eq, logicalLines_eq, if_pos hcont]

theorem Sh.handed_eq (hcont : cfg.contAccept = true) (hnul : Byte.nul ∉ f) (store : Bytes) :
    (processFile cfg path f store).2.handed = renumbered cfg f := by
  have hcontains : f.contains Byte.nul = false := by
    rw [Bool.eq_false_iff, ne_eq, List.contains_iff_mem]
    exact hnul
  have hlines : readLines (if cfg.crlfStrip then stripCrlf (withoutBom cfg f)
      else withoutBom cfg f) = scriptLines cfg f := by
    rw [scriptLines]
    split
    · exact readLines_stripCrlf _
    · exact readLines_eq _
  have hpasses : passes cfg f = if rejectsBom cfg f then .error .fileBom
      else .ok (joinContinuations (if cfg.crlfStrip then stripCrlf (withoutBom cfg f)
        else withoutBom cfg f)) := by
    rw [passes, hcontains]
    simp only [Bool.and_false, Bool.false_eq_true, if_false, take_bom, hcont, if_true]
    rfl
  rw [processFile, hpasses, renumbered]
  cases rejectsBom cfg f with
  | true => rfl
  | false =>
      simp only [Bool.false_eq_true, if_false]
      rw [(isBody_validateLine path cfg).handed_run, numberLines_eq, readLines_joinContinuations,
        hlines]

/-- The lines that the reference joins, unless the file is rejected. -/
def Awk.passLines (cfg : Knobs) (f : Bytes) : List Bytes :=
  let lines := if cfg.bom = .strip ∧ f = bomBytes then [[]]
    else Lines.lines Byte.nl (withoutBom cfg f)
  if cfg.crlfStrip then Awk.stripCrlf lines else lines

theorem Awk.bomPass_eq :
    bomPass cfg (Lines.lines Byte.nl f) =
      if rejectsBom cfg f then .error .fileBom
      else .ok (if cfg.bom = .strip ∧ f = bomBytes then [[]]
        else Lines.lines Byte.nl (withoutBom cfg f)) := by
  rw [bomPass_lines, rejectsBom, withoutBom]
  cases hbom : bomBytes.isPrefixOf f with
  | false =>
      have hne : ¬ (cfg.bom = .strip ∧ f = bomBytes) := by
        rintro ⟨_, rfl⟩
        cases hbom
      rw [if_neg hne]
      rfl
  | true =>
      obtain ⟨g, rfl⟩ := List.isPrefixOf_iff_prefix.mp hbom
      have hdrop : (bomBytes ++ g).drop 3 = g := rfl
      have hnil : bomBytes ++ g = bomBytes ↔ g = [] := List.append_right_eq_self
      rw [hdrop, if_pos rfl]
      simp only [hnil, Bool.true_and]
      cases cfg.bom with
      | reject => rfl
      | literal => rfl
      | strip =>
          rw [Meaning.behindBom]
          simp only [true_and]
          rfl

theorem Awk.handed_eq (hcont : cfg.contAccept = true) (hnul : Byte.nul ∉ f) (env : EnvArray) :
    (normalize cfg (.readable path f) env).2.handed =
      if rejectsBom cfg f then [] else joinFrom [] 0 (passLines cfg f) := by
  have hread : readLines cfg (.readable path f) =
      if rejectsBom cfg f then .error .fileBom else .ok (passLines cfg f) := by
    rw [readLines_eq, if_neg fun h => hnul h.2, bomPass_eq]
    cases rejectsBom cfg f <;> rfl
  cases hrejects : rejectsBom cfg f with
  | true =>
      rw [hrejects, if_pos rfl] at hread
      rw [normalize, hread]
      rfl
  | false =>
      rw [hrejects, if_neg Bool.false_ne_true] at hread
      rw [normalize_eq path f hread, (isBody_validate cfg path).handed_run, Meaning.logical,
        if_pos hcont]
      rfl

end Handed

/-! ## Where they agree -/

/-- No line but the last goes on, and the passes leave the same lines. -/
structure KeepsNumbers (cfg : Knobs) (f : Bytes) : Prop where
  notBom : ¬ (cfg.bom = .strip ∧ f = bomBytes)
  crlf : cfg.crlfStrip = true → ¬ OnlyEmptyLackCr (Lines.lines Byte.nl (withoutBom cfg f))
  settled : ∀ l ∈ (scriptLines cfg f).dropLast, continues l = false

section Agree

variable {cfg : Knobs} {f : Bytes}

theorem eq_of_number_eq {ls ms : List Bytes} (hlen : ls.length = ms.length)
    (hms : ∀ l ∈ ms, continues l = false)
    (h : Lines.number 0 ((joinFrom [] 0 ls).map Prod.fst) = joinFrom [] 0 ms) : ls = ms := by
  have hsettled : joinFrom [] 0 ms = Lines.number 0 ms :=
    joinFrom_settled fun l hl => hms l (List.dropLast_subset _ hl)
  have htexts := congrArg (List.map Prod.fst) h
  rw [hsettled, Lines.number_fst, Lines.number_fst] at htexts
  have hcount : (joinFrom [] 0 ls).length = ls.length := by
    rw [hlen, ← htexts, List.length_map]
  rw [(blocks_joinFrom ls).eq_number hcount, Lines.number_fst] at htexts
  exact htexts

theorem renumbered_eq_iff (hrejects : rejectsBom cfg f = false) :
    renumbered cfg f = joinFrom [] 0 (Awk.passLines cfg f) ↔ KeepsNumbers cfg f := by
  rw [renumbered, hrejects, if_neg Bool.false_ne_true]
  by_cases hbom : cfg.bom = .strip ∧ f = bomBytes
  · -- no line for the scripts, an empty one for the reference
    refine iff_of_false ?_ fun h => h.notBom hbom
    have hempty : withoutBom cfg f = [] := by
      rw [withoutBom, hbom.1, hbom.2]
      rfl
    have hscript : scriptLines cfg f = [] := by
      rw [scriptLines, hempty]
      cases cfg.crlfStrip <;> rfl
    have hpass : Awk.passLines cfg f = [[]] := by
      rw [Awk.passLines, if_pos hbom, Awk.stripCrlf_of_nil_mem (List.mem_singleton_self [])]
      split <;> rfl
    rw [hscript, hpass]
    decide
  have hpass : Awk.passLines cfg f =
      if cfg.crlfStrip then Awk.stripCrlf (Lines.lines Byte.nl (withoutBom cfg f))
      else Lines.lines Byte.nl (withoutBom cfg f) := by
    rw [Awk.passLines, if_neg hbom]
  by_cases hcrlf : cfg.crlfStrip = true ∧ OnlyEmptyLackCr (Lines.lines Byte.nl (withoutBom cfg f))
  · refine iff_of_false ?_ fun h => h.crlf hcrlf.1 hcrlf.2
    obtain ⟨hstrip, hlack⟩ := hcrlf
    obtain ⟨hsettled, hchange⟩ := hlack.lines_change
    rw [hpass, scriptLines, if_pos hstrip, if_pos hstrip, othersEndInCr_of_forall hlack.2.2,
      if_pos rfl, Awk.stripCrlf_of_nil_mem hlack.1]
    intro h
    exact hchange (eq_of_number_eq (List.length_map _) hsettled h)
  · have hlines : Awk.passLines cfg f = scriptLines cfg f := by
      rw [hpass, scriptLines]
      split
      · exact (stripCrlf_of_not_lack fun h => hcrlf ⟨‹_›, h⟩).symm
      · rfl
    rw [hlines, number_joinFrom_iff]
    exact ⟨fun h => ⟨hbom, fun hstrip hlack => hcrlf ⟨hstrip, hlack⟩, h⟩, fun h => h.settled⟩

/-- The line numbers of the Perl and of the shell script are those of the
reference exactly where both reject the file or nothing before the last logical
line is joined. -/
theorem renumbered_iff (hcont : cfg.contAccept = true) (hnul : Byte.nul ∉ f) (path : Bytes)
    (perlEnv : Perl.EnvHash) (shEnv : Bytes) (awkEnv : Awk.EnvArray) :
    let reference := (Awk.normalize cfg (.readable path f) awkEnv).2.handed
    let same := rejectsBom cfg f = true ∨ KeepsNumbers cfg f
    ((Perl.processFile cfg path f perlEnv).2.handed = reference ↔ same) ∧
      ((Sh.processFile cfg path f shEnv).2.handed = reference ↔ same) := by
  intro reference same
  have hawk : reference = if rejectsBom cfg f then [] else joinFrom [] 0 (Awk.passLines cfg f) :=
    Awk.handed_eq cfg path f hcont hnul awkEnv
  have hsame : renumbered cfg f = reference ↔ same := by
    rw [hawk]
    cases hrejects : rejectsBom cfg f with
    | true =>
        rw [renumbered, hrejects]
        exact iff_of_true rfl (Or.inl hrejects)
    | false =>
        rw [if_neg Bool.false_ne_true, renumbered_eq_iff hrejects]
        exact (or_iff_right (ne_true_of_eq_false hrejects)).symm
  rw [Perl.handed_eq cfg path f hcont hnul, Sh.handed_eq cfg path f hcont hnul]
  exact ⟨hsame, hsame⟩

end Agree

/-! ## A join -/

/-- The settings under which lines are joined. -/
def joinKnobs : Knobs := { validateKnobs with contAccept := true }

/-- `A=1`, joined with the next line, and a record on line 3. -/
def joinedFile : Bytes := ascii "A=1\\\n2\nB=3\n"

/-- The last record is on line 3; both scripts say that it is on line 2. -/
theorem numbers_differ :
    let reference := (Awk.normalize joinKnobs (.readable (ascii "f") joinedFile) ∅).2.handed
    let perl := (Perl.processFile joinKnobs (ascii "f") joinedFile ∅).2.handed
    let sh := (Sh.processFile joinKnobs (ascii "f") joinedFile []).2.handed
    perl ≠ reference ∧ sh ≠ reference ∧
      reference = [(ascii "A=12", 2), (ascii "B=3", 3)] ∧
      perl = [(ascii "A=12", 1), (ascii "B=3", 2)] ∧
      sh = [(ascii "A=12", 1), (ascii "B=3", 2)] := by
  decide +kernel

/-- A file whose last line goes on, and no other. -/
theorem renumbered_iff_last :
    let f := ascii "B=3\nA=1\\\n"
    let reference := (Awk.normalize joinKnobs (.readable (ascii "f") f) ∅).2.handed
    let same := rejectsBom joinKnobs f = true ∨ KeepsNumbers joinKnobs f
    ((Perl.processFile joinKnobs (ascii "f") f ∅).2.handed = reference ↔ same) ∧
      ((Sh.processFile joinKnobs (ascii "f") f []).2.handed = reference ↔ same) :=
  renumbered_iff rfl (by decide) (ascii "f") ∅ [] ∅

end Envfile

/-
# `Envfile.C.Concat` — files end to end

With every pass but the NUL test off, a file is its lines, and a loop body
does not look at the path or the number of its line except to report it
(`body_relocate`).  So a file that is empty or ends in a newline can be
followed by another in the same file, or be a file argument of its own.
-/
import Envfile.C.Files

namespace Envfile.C

/-- No BOM handling, no CR stripping, no continuation. -/
structure Config.Plain (cfg : Config) : Prop where
  bom : cfg.bom = .literal
  stripCr : cfg.stripCr = false
  shellCont : cfg.shellCont = false

/-- The configuration of a format and an action with these settings. -/
def Config.plain (native : Bool) (action : Action) : Config where
  native := native
  action := action
  bom := .literal
  stripCr := false
  nulReject := true
  shellCont := false
  native_bom := fun _ => rfl
  native_cont := fun _ => rfl

theorem plain_plain (native : Bool) (action : Action) : (Config.plain native action).Plain :=
  ⟨rfl, rfl, rfl⟩

section Plain

variable (backend : Backend) {cfg : Config}

/-! ## A file is its lines -/

theorem physicalLines_plain (hplain : cfg.Plain) (f : Bytes) :
    physicalLines cfg f = Lines.lines Byte.nl f :=
  physicalLines_off hplain.stripCr f

theorem prePasses_plain (hplain : cfg.Plain) {f : Bytes} (hnul : Byte.nul ∉ f) :
    prePasses cfg (Stream.ofBytes f) = .ok f :=
  prePasses_literal hplain.bom fun h => hnul h.2

theorem processFile_plain (hplain : cfg.Plain) (tag : Bytes) {f : Bytes} (hnul : Byte.nul ∉ f)
    (hfit : LinesFit f) :
    processFile backend cfg tag (Stream.ofBytes f) =
      Step.run (fun p => body backend cfg tag p.1 p.2)
        (Lines.number 0 (Lines.lines Byte.nl f)) := by
  have h := processFile_eq backend cfg tag hfit fun data _ => joinedFit_off hplain.shellCont data
  simp only [prePasses_plain hplain hnul] at h
  rw [h, handedLines_off hplain.shellCont, physicalLines_plain hplain]

/-! ## A line in another place -/

variable (cfg) (path : Bytes → Bytes) (num : Nat → Nat)

theorem substValue_relocate (val tag : Bytes) (lineNo : Nat) (env : EnvTable) :
    substValue val (path tag) (num lineNo) env =
      ((substValue val tag lineNo env).1,
        Out.relocate path num (substValue val tag lineNo env).2) := by
  rw [substValue_eq, substValue_eq, Out.relocate_unbound]

theorem acceptRecord_relocate (tag : Bytes) (action : Action) (native : Bool) (line : Bytes)
    (lineNo : Nat) (record : EnvfileRecord) (env : EnvTable) :
    acceptRecord (path tag) action native line (num lineNo) record env =
      ((acceptRecord tag action native line lineNo record env).1,
        Out.relocate path num (acceptRecord tag action native line lineNo record env).2) := by
  have hresolved : ∀ value : Bytes,
      (if native || record.valueKind != .singleQuoted then
          substValue value (path tag) (num lineNo) env else (value, 0)) =
        ((if native || record.valueKind != .singleQuoted then
            substValue value tag lineNo env else (value, 0)).1,
          Out.relocate path num (if native || record.valueKind != .singleQuoted then
            substValue value tag lineNo env else (value, 0)).2) := by
    intro value
    split
    · exact substValue_relocate _ _ _ _ _ _
    · rw [map_zero]
  simp only [acceptRecord, hresolved]
  cases action with
  | dump => rfl
  | _ => simp

theorem normalizeRecord_relocate (tag line : Bytes) (lineNo : Nat) :
    normalizeRecord (path tag) line (num lineNo) =
      Out.relocate path num (normalizeRecord tag line lineNo) := by
  rw [normalizeRecord, normalizeRecord, map_add, Out.relocate_hand]
  congr 1
  split
  · exact (map_zero _).symm
  · rw [map_add, Out.relocate_check]
    congr 1
    split <;> rfl

theorem body_relocate (tag line : Bytes) (lineNo : Nat) (env : EnvTable) :
    body backend cfg (path tag) line (num lineNo) env =
      ((body backend cfg tag line lineNo env).1,
        Out.relocate path num (body backend cfg tag line lineNo env).2) := by
  rw [body, body]
  split
  · exact congrArg _ (normalizeRecord_relocate _ _ _ _ _)
  · rw [scanRecord, scanRecord]
    obtain ⟨status, record⟩ := backend.parse cfg.native line
    cases status with
    | ok => simp [Step.prepend, acceptRecord_relocate]
    | skip => simp [Step.prepend, Step.skip]
    | _ => simp [Step.prepend, Step.emit, Diag.relocate]

theorem run_relocate (tag : Bytes) (lines : List (Bytes × Nat)) (env : EnvTable) :
    Step.run (fun p => body backend cfg (path tag) p.1 p.2)
        (lines.map fun p => (p.1, num p.2)) env =
      ((Step.run (fun p => body backend cfg tag p.1 p.2) lines env).1,
        Out.relocate path num (Step.run (fun p => body backend cfg tag p.1 p.2) lines env).2) := by
  rw [Step.run_map, ← Step.run_hom]
  exact Step.run_congr (fun p _ s => body_relocate backend cfg path num tag p.1 p.2 s) env

/-! ## What does not depend on the place -/

/-- The run over some lines, reported about no path and no line. -/
def runLines (ls : List Bytes) : Step EnvTable (Out Int32) :=
  Step.run (fun line => body backend cfg [] line 0) ls

theorem runLines_append (ls ms : List Bytes) (env : EnvTable) :
    runLines backend cfg (ls ++ ms) env =
      ((runLines backend cfg ms (runLines backend cfg ls env).1).1,
        (runLines backend cfg ls env).2 +
          (runLines backend cfg ms (runLines backend cfg ls env).1).2) :=
  Step.run_append _ ls ms env

theorem runLines_places (tag : Bytes) (lines : List (Bytes × Nat)) (env : EnvTable) :
    (Step.run (fun p => body backend cfg tag p.1 p.2) lines env).1 =
        (runLines backend cfg (lines.map Prod.fst) env).1 ∧
      (Step.run (fun p => body backend cfg tag p.1 p.2) lines env).2.SameText
        (runLines backend cfg (lines.map Prod.fst) env).2 := by
  have hrun : runLines backend cfg (lines.map Prod.fst) env =
      Step.run (fun p => body backend cfg [] p.1 p.2) (lines.map fun p => (p.1, 0)) env := by
    rw [runLines, Step.run_map, Step.run_map]
  rw [hrun, run_relocate backend cfg (fun _ => []) (fun _ => 0) tag]
  exact ⟨rfl, (Out.SameText.relocate _ _ _).symm⟩

theorem processFile_runLines {cfg : Config} (hplain : cfg.Plain) (tag : Bytes) {f : Bytes}
    (hnul : Byte.nul ∉ f) (hfit : LinesFit f) (env : EnvTable) :
    (processFile backend cfg tag (Stream.ofBytes f) env).1 =
        (runLines backend cfg (Lines.lines Byte.nl f) env).1 ∧
      (processFile backend cfg tag (Stream.ofBytes f) env).2.SameText
        (runLines backend cfg (Lines.lines Byte.nl f) env).2 := by
  have h := runLines_places backend cfg tag (Lines.number 0 (Lines.lines Byte.nl f)) env
  rwa [Lines.number_fst, ← processFile_plain backend hplain tag hnul hfit] at h

/-! ## One file after the other -/

/-- Lines after other lines: the same output, that many lines further down. -/
theorem run_lines_append (tag : Bytes) (ls ms : List Bytes) (env : EnvTable) :
    Step.run (fun p => body backend cfg tag p.1 p.2) (Lines.number 0 (ls ++ ms)) env =
      let first := Step.run (fun p => body backend cfg tag p.1 p.2) (Lines.number 0 ls) env
      let second :=
        Step.run (fun p => body backend cfg tag p.1 p.2) (Lines.number 0 ms) first.1
      (second.1, first.2 + Out.relocate id (· + ls.length) second.2) := by
  rw [Lines.number_append, Step.run_append, Lines.number_add]
  have h := run_relocate backend cfg id (· + ls.length) tag (Lines.number 0 ms)
    (Step.run (fun p => body backend cfg tag p.1 p.2) (Lines.number 0 ls) env).1
  rw [id_eq] at h
  rw [h]

/-! ## A rejected line -/

/-- The code a line is rejected with, if it is. -/
def rejectedWith (line : Bytes) : Option Code :=
  if cfg.action = .normalize then
    if isBlankOrCommentLine line || (memchr line Byte.equals).isSome then none
    else some .noEquals
  else match (backend.parse cfg.native line).1 with
    | .skip => none
    | .ok => none
    | status => some (statusName status)

theorem body_rejected {line : Bytes} {code : Code} (h : rejectedWith backend cfg line = some code)
    (tag : Bytes) (lineNo : Nat) (env : EnvTable) :
    body backend cfg tag line lineNo env =
      (env, Out.hand line lineNo + (Out.check + Out.diag ⟨code, none, tag, some lineNo⟩)) := by
  rw [rejectedWith] at h
  rw [body]
  split at h
  · rw [if_pos ‹_›]
    split at h
    · cases h
    · obtain rfl := Option.some.inj h
      rename_i hline
      rw [Bool.or_eq_true, not_or] at hline
      rw [normalizeRecord, if_neg hline.1]
      cases hmem : memchr line Byte.equals with
      | none => rfl
      | some n => exact absurd (by rw [hmem]; rfl) hline.2
  · rw [if_neg ‹_›, scanRecord]
    revert h
    obtain ⟨status, record⟩ := backend.parse cfg.native line
    intro h
    cases status with
    | skip => cases h
    | ok => cases h
    | _ =>
        obtain rfl := Option.some.inj h
        rfl

theorem runLines_rejected {line : Bytes} {code : Code}
    (h : rejectedWith backend cfg line = some code) (ls ms : List Bytes) (env : EnvTable) :
    let first := runLines backend cfg ls env
    let second := runLines backend cfg ms first.1
    runLines backend cfg (ls ++ line :: ms) env =
      (second.1, first.2 + (Out.hand line 0 +
        (Out.check + Out.diag ⟨code, none, [], some 0⟩) + second.2)) := by
  intro first second
  rw [runLines_append, runLines, Step.run_cons]
  simp only [body_rejected backend cfg h]
  rfl

/-! ## Concatenation -/

section Append

variable {f g : Bytes}

theorem lines_append (hf : f = [] ∨ f.getLast? = some Byte.nl) (s : Bytes) :
    Lines.lines Byte.nl (f ++ s) = Lines.lines Byte.nl f ++ Lines.lines Byte.nl s := by
  refine Lines.lines_append_of_rest Byte.nl ((Lines.rest_eq_nil_iff Byte.nl).mpr ?_) s
  exact hf.imp id List.getLast?_eq_some_iff.mp

theorem linesFit_append (hf : f = [] ∨ f.getLast? = some Byte.nl) (hfitf : LinesFit f)
    (hfitg : LinesFit g) : LinesFit (f ++ g) := by
  intro l hl
  rw [lines_append hf, List.mem_append] at hl
  exact hl.elim (hfitf l) (hfitg l)

theorem nul_not_mem_append (hnulf : Byte.nul ∉ f) (hnulg : Byte.nul ∉ g) :
    Byte.nul ∉ f ++ g := by
  rw [List.mem_append, not_or]
  exact ⟨hnulf, hnulg⟩

variable {cfg} (hplain : cfg.Plain) (hf : f = [] ∨ f.getLast? = some Byte.nl)
  (hnulf : Byte.nul ∉ f) (hnulg : Byte.nul ∉ g) (hfitf : LinesFit f) (hfitg : LinesFit g)

include hplain hf hnulf hnulg hfitf hfitg

theorem processFile_both (tag : Bytes) (env : EnvTable) :
    let first := processFile backend cfg tag (Stream.ofBytes f) env
    let second := processFile backend cfg tag (Stream.ofBytes g) first.1
    processFile backend cfg tag (Stream.ofBytes (f ++ g)) env =
      (second.1, first.2 + Out.relocate id (· + (Lines.lines Byte.nl f).length) second.2) := by
  rw [processFile_plain backend hplain tag (nul_not_mem_append hnulf hnulg)
      (linesFit_append hf hfitf hfitg), lines_append hf,
    processFile_plain backend hplain tag hnulf hfitf,
    processFile_plain backend hplain tag hnulg hfitg]
  exact run_lines_append backend cfg tag _ _ env

theorem runFiles_both (environ : Environ) (p q r : Bytes) :
    let one := runFiles backend cfg environ [.readable p (f ++ g)]
    let two := runFiles backend cfg environ [.readable q f, .readable r g]
    one.out.SameText two.out ∧ one.exit = two.exit := by
  intro one two
  let t := initialTable cfg environ
  let both := processFile backend cfg p (Stream.ofBytes (f ++ g)) t
  let first := processFile backend cfg q (Stream.ofBytes f) t
  let second := processFile backend cfg r (Stream.ofBytes g) first.1
  obtain ⟨hstate, htext⟩ := processFile_runLines backend hplain p
    (nul_not_mem_append hnulf hnulg) (linesFit_append hf hfitf hfitg) t
  obtain ⟨hstate₁, htext₁⟩ := processFile_runLines backend hplain q hnulf hfitf t
  obtain ⟨hstate₂, htext₂⟩ := processFile_runLines backend hplain r hnulg hfitg first.1
  rw [lines_append hf, runLines_append, ← hstate₁] at hstate htext
  have hfinal : both.1 = second.1 := hstate.trans hstate₂.symm
  have hone : one.out = both.2 + emitted cfg both.1 := runFiles_one backend cfg environ p (f ++ g)
  have htwo : two.out = first.2 + second.2 + emitted cfg second.1 := by
    have hout := runFiles_out backend cfg environ [.readable q f, .readable r g]
    rwa [Step.run_cons, Step.run_singleton] at hout
  have htotal : one.out.SameText two.out := by
    rw [hone, htwo, hfinal]
    exact (htext.trans (htext₁.add htext₂).symm).add (.refl _)
  refine ⟨htotal, ?_⟩
  show (if one.out.errors > 0 then 1 else 0) = if two.out.errors > 0 then 1 else 0
  rw [htotal.errors]

theorem processFile_rejected {line : Bytes} {code : Code}
    (hcode : rejectedWith backend cfg line = some code) (hnl : Byte.nl ∉ line)
    (hnul : Byte.nul ∉ line) (hlen : line.length ≤ maxLine) (tag : Bytes) (env : EnvTable) :
    let first := processFile backend cfg tag (Stream.ofBytes f) env
    let second := processFile backend cfg tag (Stream.ofBytes g) first.1
    let more := processFile backend cfg tag (Stream.ofBytes (f ++ (line ++ Byte.nl :: g))) env
    more.1 = second.1 ∧ more.2.SameText
      (first.2 + (Out.check + Out.diag ⟨code, none, tag, none⟩) + second.2) := by
  intro first second more
  have hrest : Lines.lines Byte.nl (line ++ Byte.nl :: g) = line :: Lines.lines Byte.nl g :=
    Lines.lines_line Byte.nl hnl g
  have hnulmore : Byte.nul ∉ line ++ Byte.nl :: g := by
    rw [List.mem_append, List.mem_cons, not_or, not_or]
    exact ⟨hnul, by decide, hnulg⟩
  have hfitmore : LinesFit (line ++ Byte.nl :: g) := by
    intro l hl
    rw [hrest, List.mem_cons] at hl
    rcases hl with rfl | hl
    · exact hlen
    · exact hfitg l hl
  obtain ⟨hstate, htext⟩ := processFile_runLines backend hplain tag
    (nul_not_mem_append hnulf hnulmore) (linesFit_append hf hfitf hfitmore) env
  obtain ⟨hstate₁, htext₁⟩ := processFile_runLines backend hplain tag hnulf hfitf env
  obtain ⟨hstate₂, htext₂⟩ := processFile_runLines backend hplain tag hnulg hfitg first.1
  rw [lines_append hf, hrest, runLines_rejected backend cfg hcode, ← hstate₁] at hstate htext
  have hline : Out.SameText
      (Out.hand line 0 + (Out.check + Out.diag ⟨code, none, [], some 0⟩) : Out Int32)
      (Out.check + Out.diag ⟨code, none, tag, none⟩) :=
    ⟨rfl, rfl, zero_add _, zero_add _⟩
  refine ⟨hstate.trans hstate₂.symm, htext.trans ?_⟩
  rw [← add_assoc]
  exact (htext₁.symm.add hline).add htext₂.symm

end Append

/-- A file `f` that is empty or ends in a newline, and a file `g`: in one file,
`g` is processed from the environment table that `f` left, that many lines
further down; as two file arguments they write the same; and a rejected line
between them changes nothing but its own diagnostic and count. -/
theorem processFile_append {cfg : Config} (hplain : cfg.Plain) {f g : Bytes}
    (hf : f = [] ∨ f.getLast? = some Byte.nl) (hnulf : Byte.nul ∉ f) (hnulg : Byte.nul ∉ g)
    (hfitf : LinesFit f) (hfitg : LinesFit g) (tag : Bytes) (env : EnvTable) :
    let process := fun s => processFile backend cfg tag (Stream.ofBytes s)
    let first := process f env
    let second := process g first.1
    let both := process (f ++ g) env
    (both.1 = second.1 ∧
      both.2.stdout = first.2.stdout ++ second.2.stdout ∧
      both.2.diags = first.2.diags ++
        second.2.diags.map (Diag.shift (Lines.lines Byte.nl f).length) ∧
      both.2.checked = first.2.checked + second.2.checked ∧
      both.2.errors = first.2.errors + second.2.errors) ∧
    (∀ environ p q r,
      let one := runFiles backend cfg environ [.readable p (f ++ g)]
      let two := runFiles backend cfg environ [.readable q f, .readable r g]
      one.out.SameText two.out ∧ one.exit = two.exit) ∧
    ∀ line code, rejectedWith backend cfg line = some code →
      Byte.nl ∉ line → Byte.nul ∉ line → line.length ≤ maxLine →
      let more := process (f ++ (line ++ Byte.nl :: g)) env
      more.1 = both.1 ∧ more.2.stdout = both.2.stdout ∧
        more.2.codes = first.2.codes ++ code :: second.2.codes ∧
        more.2.checked = first.2.checked + 1 + second.2.checked ∧
        more.2.errors = first.2.errors + 1 + second.2.errors := by
  intro process first second both
  have hboth : both = (second.1, _) :=
    processFile_both backend hplain hf hnulf hnulg hfitf hfitg tag env
  refine ⟨?_, runFiles_both backend hplain hf hnulf hnulg hfitf hfitg, ?_⟩
  · rw [hboth]
    exact ⟨rfl, rfl, rfl, rfl, rfl⟩
  · intro line code hcode hnl hnul hlen more
    obtain ⟨hstate, htext⟩ := processFile_rejected backend hplain hf hnulf hnulg hfitf hfitg
      hcode hnl hnul hlen tag env
    rw [hboth]
    refine ⟨hstate, ?_, ?_, ?_, ?_⟩
    · rw [htext.stdout]
      simp
    · rw [htext.codes, Out.codes_add, Out.codes_add, Out.codes_add, Out.codes_check,
        Out.codes_diag]
      exact List.append_assoc _ _ _
    · rw [htext.checked]
      simp [first, second, process]
    · rw [htext.errors]
      simp [first, second, process]

/-- `B`, which has no `=`, between two assignments. -/
theorem processFile_append_rejected :
    let process := fun s => processFile .c (.plain false .dump) [] (Stream.ofBytes s) .zero
    (process (ascii "A=1\n" ++ (ascii "B" ++ Byte.nl :: ascii "C=3"))).2.stdout =
      (process (ascii "A=1\n" ++ ascii "C=3")).2.stdout :=
  ((processFile_append .c (plain_plain false .dump) (Or.inr rfl) (by decide) (by decide)
    (by decide) (by decide) [] .zero).2.2 (ascii "B") .noEquals rfl (by decide) (by decide)
    (by decide)).2.1

end Plain

end Envfile.C

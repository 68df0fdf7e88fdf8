/-
# `Envfile.C.Rejected` — files that are rejected as a whole

The environment table and the totals are threaded through all file arguments.
A file that does not open, or that the NUL or the BOM pass rejects, writes one
diagnostic and touches nothing else, so a run without it is the same run
without that diagnostic (`rejected_leaves_nothing`).

What an argument stands for depends on the arguments before it in one case:
`-` is the standard input, and whoever names it first reads all of it.
-/
import Envfile.C.Files

namespace Envfile.C

/-! ## The arguments -/

/-- What the paths on the command line stand for: the bytes on the standard
input, whether reading it fails, and the files. -/
structure World where
  stdin : Bytes
  stdinFailed : Bool
  file : Bytes → File

namespace World

variable (w : World)

/-- The file of a path, `read` telling whether the standard input has been read
before. -/
def arg (read : Bool) (path : Bytes) : File :=
  if path = [Byte.dash] then ⟨path, true, if read then [] else w.stdin, w.stdinFailed⟩
  else { w.file path with path := path }

/-- The files of the paths, in order. -/
def args : Bool → List Bytes → List File
  | _, [] => []
  | read, path :: paths => w.arg read path :: args (read || path == [Byte.dash]) paths

theorem arg_path (read : Bool) (path : Bytes) : (w.arg read path).path = path := by
  rw [arg]
  split <;> rfl

theorem args_append (read : Bool) (paths paths' : List Bytes) :
    w.args read (paths ++ paths') =
      w.args read paths ++ w.args (read || paths.contains [Byte.dash]) paths' := by
  induction paths generalizing read with
  | nil =>
      rw [List.contains_nil, Bool.or_false]
      rfl
  | cons path paths ih =>
      rw [List.cons_append, args, args, ih, List.contains_cons, Bool.or_assoc, List.cons_append,
        Bool.beq_comm]

/-- Paths among which the standard input is not name the same files whether or
not it has been read. -/
theorem args_of_not_mem {paths : List Bytes} (h : [Byte.dash] ∉ paths) (read read' : Bool) :
    w.args read paths = w.args read' paths := by
  induction paths generalizing read read' with
  | nil => rfl
  | cons path paths ih =>
      rw [List.mem_cons, not_or] at h
      have hpath : path ≠ [Byte.dash] := fun e => h.1 e.symm
      rw [args, args, ih h.2 (read || path == [Byte.dash]) (read' || path == [Byte.dash]), arg, arg,
        if_neg hpath, if_neg hpath]

end World

section Run

variable (backend : Backend) (cfg : Config) (environ : Environ)

/-- The paths that `main` goes through. -/
def filesOf (argv : List Bytes) : List Bytes := if argv.isEmpty then [[Byte.dash]] else argv

/-- A run over the paths of a command line. -/
def runArgs (w : World) (argv : List Bytes) : Report Int32 :=
  runFiles backend cfg environ (w.args false (filesOf argv))

/-- The environment table at the end of it. -/
def tableAfter (w : World) (argv : List Bytes) : EnvTable :=
  (Step.run (processArg backend cfg) (w.args false (filesOf argv)) (initialTable cfg environ)).1

theorem main_args (w : World) (argv : List Bytes) :
    main backend environ (w.arg false [Byte.dash]) (w.args false argv) =
      (readConfig environ).map fun cfg => runArgs backend cfg environ w argv := by
  rw [main]
  cases readConfig environ with
  | error e => rfl
  | ok cfg => cases argv <;> rfl

/-! ## Rejection -/

/-- The file cannot be opened, or the NUL or the BOM pass rejects it. -/
def Rejected (file : File) : Prop :=
  file.opens = false ∨ (cfg.nulReject = true ∧ Byte.nul ∈ file.contents) ∨
    (cfg.bom = .reject ∧ hasBom file.contents = true)

/-- A rejected file writes its diagnostic and keeps the table, whatever the
action. -/
theorem processArg_rejected {file : File} (h : Rejected cfg file) :
    ∃ code, processArg backend cfg file = Step.emit (Out.diag ⟨code, none, file.path, none⟩) := by
  rw [processArg, fopen]
  cases hopens : file.opens with
  | false => exact ⟨.cannotOpen, rfl⟩
  | true =>
      have hpass : ∃ code, prePasses cfg { Stream.ofBytes file.contents with err := file.failed } =
          .error code := by
        cases hfailed : file.failed with
        | true => exact ⟨.fileUnreadable, rfl⟩
        | false =>
            show ∃ code, prePasses cfg (Stream.ofBytes file.contents) = .error code
            rw [prePasses_eq]
            rcases h with h | h | ⟨hmode, hbom⟩
            · rw [hopens] at h
              cases h
            · rw [if_pos h]
              exact ⟨.fileNul, rfl⟩
            · rw [hasBom] at hbom
              split
              · exact ⟨.fileNul, rfl⟩
              · rw [hmode]
                exact ⟨.fileBom, rfl⟩
      obtain ⟨code, hcode⟩ := hpass
      refine ⟨code, ?_⟩
      rw [if_pos rfl]
      simp only [processFile, hcode]

theorem args_without (w : World) {pre post : List Bytes} {path : Bytes}
    (hstdin : path = [Byte.dash] → [Byte.dash] ∉ post) :
    let read := pre.contains [Byte.dash]
    w.args false (pre ++ path :: post) =
        w.args false pre ++ w.arg read path :: w.args read post ∧
      w.args false (pre ++ post) = w.args false pre ++ w.args read post := by
  intro read
  rw [w.args_append, w.args_append, Bool.false_or]
  refine ⟨?_, rfl⟩
  have hpost : w.args (read || path == [Byte.dash]) post = w.args read post := by
    by_cases hpath : path = [Byte.dash]
    · exact w.args_of_not_mem (hstdin hpath) _ _
    · rw [beq_eq_false_iff_ne.mpr hpath, Bool.or_false]
  rw [World.args, hpost]

/-- Without a rejected file that is not the standard input, or is and is not
named again, everything is the same but for its one diagnostic. -/
theorem rejected_leaves_nothing (w : World) {pre post : List Bytes} {path : Bytes}
    (hremain : pre ++ post ≠ [])
    (hrejected : Rejected cfg (w.arg (pre.contains [Byte.dash]) path))
    (hstdin : path = [Byte.dash] → [Byte.dash] ∉ post) :
    let whole := runArgs backend cfg environ w (pre ++ path :: post)
    let rest := runArgs backend cfg environ w (pre ++ post)
    whole.out.stdout = rest.out.stdout ∧ whole.out.checked = rest.out.checked ∧
      tableAfter backend cfg environ w (pre ++ path :: post) =
        tableAfter backend cfg environ w (pre ++ post) ∧
      (∃ before d after, whole.out.diags = before ++ d :: after ∧
        rest.out.diags = before ++ after ∧ d.path = path) ∧
      whole.out.errors = rest.out.errors + 1 := by
  intro whole rest
  have hwhole : filesOf (pre ++ path :: post) = pre ++ path :: post := by
    rw [filesOf, if_neg]
    simp
  have hrest : filesOf (pre ++ post) = pre ++ post := by
    rw [filesOf, if_neg]
    rwa [List.isEmpty_iff]
  obtain ⟨hargs, hargs'⟩ := args_without w hstdin
  obtain ⟨code, hemit⟩ := processArg_rejected backend cfg hrejected
  rw [World.arg_path] at hemit
  obtain ⟨htable, u, v, hout, hout'⟩ := Step.run_emit hemit (w.args false pre)
    (w.args (pre.contains [Byte.dash]) post) (initialTable cfg environ)
  rw [← hargs, ← hargs'] at htable
  rw [← hargs] at hout
  rw [← hargs'] at hout'
  -- the table is printed alike
  obtain ⟨p, hp⟩ : ∃ p, emitted cfg (Step.run (processArg backend cfg)
    (w.args false (pre ++ post)) (initialTable cfg environ)).1 = p := ⟨_, rfl⟩
  have hw : whole.out = u + (Out.diag ⟨code, none, path, none⟩ + v) + p := by
    show (runFiles backend cfg environ (w.args false (filesOf _))).out = _
    rw [hwhole, runFiles_out, htable, hout, hp]
  have hr : rest.out = u + v + p := by
    show (runFiles backend cfg environ (w.args false (filesOf _))).out = _
    rw [hrest, runFiles_out, hout', hp]
  refine ⟨?_, ?_, ?_, ?_, ?_⟩
  · rw [hw, hr]
    rfl
  · rw [hw, hr]
    simp
  · rw [tableAfter, tableAfter, hwhole, hrest, htable]
  · refine ⟨u.diags, ⟨code, none, path, none⟩, v.diags ++ p.diags, ?_, ?_, rfl⟩
    · rw [hw]
      simp
    · rw [hr]
      simp
  · rw [hw, hr]
    simp only [Out.add_errors, Out.diag_errors]
    ac_rfl

/-- A file with a NUL between two files with a bad line each. -/
theorem rejected_leaves_nothing_between :
    let w : World := ⟨[], false, fun path => .readable path
      (if path = ascii "bad" then [Byte.nul] else ascii "A=1\n=2\n")⟩
    let cfg : Config := { Config.default with action := .delta }
    let whole := runArgs .c cfg [ascii "B=2"] w [ascii "good", ascii "bad", ascii "good"]
    let rest := runArgs .c cfg [ascii "B=2"] w [ascii "good", ascii "good"]
    whole.out.stdout = rest.out.stdout ∧ whole.out.checked = rest.out.checked ∧
      tableAfter .c cfg [ascii "B=2"] w [ascii "good", ascii "bad", ascii "good"] =
        tableAfter .c cfg [ascii "B=2"] w [ascii "good", ascii "good"] ∧
      (∃ before d after, whole.out.diags = before ++ d :: after ∧
        rest.out.diags = before ++ after ∧ d.path = ascii "bad") ∧
      whole.out.errors = rest.out.errors + 1 :=
  @rejected_leaves_nothing .c _ [ascii "B=2"] _ [ascii "good"] _ _ (by decide)
    (Or.inr (Or.inl ⟨rfl, by decide⟩)) (by decide)

/-- The standard input, named twice and rejected: it is read and rejected at
either place, but once. -/
theorem stdin_rejected_once :
    let w : World := ⟨[Byte.nul], false, fun path => .readable path []⟩
    let stdin := [Byte.dash]
    Rejected .default (w.arg false stdin) ∧
      (runArgs .c .default [] w [stdin, stdin]).out.errors = 1 ∧
      (runArgs .c .default [] w [stdin]).out.errors = 1 := by
  intro w stdin
  exact ⟨Or.inr (Or.inl ⟨rfl, by decide⟩), by decide, by decide⟩

end Run

end Envfile.C

/-
# `Envfile.Port.Refines` — the shared record loop refines the meaning

A port whose table is a map (`IsMap`) does with a line what its classification
means, in both formats and under every action; so it does with the lines of a
file what the file means (`processArg_refines`).

Under `normalize` a port prints the lines it does not pass over, so that there
these must be the lines that are not blank and no comments (`SkipsBlank`).
-/
import Envfile.Port.Classify
import Envfile.Runs

namespace Envfile.Port

open Meaning

variable {σ ι : Type} [AddMonoidWithOne ι]

/-- The table of a port is a map: `R` relates it to the environment that it
stands for. -/
structure IsMap (port : Port σ) (R : σ → Env → Prop) : Prop where
  get : ∀ {s m}, R s m → port.get s = m
  set : ∀ {s m}, R s m → ∀ k v, R (port.set s k v) (Function.update m k (some v))

/-- One file, as the programs with the shared loop treat it. -/
def processArg (port : Port σ) (cfg : Knobs) (file : File) : Step σ (Out ι) :=
  match readFile cfg file with
  | .error code => Step.emit (Out.diag ⟨code, none, file.path, none⟩)
  | .ok lines => Step.run (fun p => port.processLine cfg file.path p.2 p.1) lines

section Line

variable {port : Port σ} {R : σ → Env → Prop} (hmap : port.IsMap R) {cfg : Knobs}
  {action : Action} (hact : cfg.action = some action) (path : Bytes) (lineno : Nat)

include hmap hact

theorem accept_refines (k v : Bytes) (quoting : Quoting) :
    Refines R (port.accept cfg path lineno k v quoting : Step σ (Out ι))
      (Meaning.accept cfg.native action path lineno k v quoting) := by
  intro s m hR
  have hresolved : (if cfg.native || quoting != .single then port.substValue path lineno v s
        else (v, 0) : Bytes × Out ι) =
      ((Meaning.resolve cfg.native quoting v m).1,
        Out.unbound path lineno (Meaning.resolve cfg.native quoting v m).2) := by
    rw [Meaning.resolve, port.substValue_eq, hmap.get hR]
    split <;> rfl
  have hset := hmap.set hR k (Meaning.resolve cfg.native quoting v m).1
  rw [accept, hact]
  cases action with
  | dump => exact ⟨hR, (toOut_print k v).symm⟩
  | normalize => exact ⟨hR, (map_zero _).symm⟩
  | validate => exact ⟨hR, (map_zero _).symm⟩
  | delta =>
      simp only [hresolved]
      refine ⟨hset, ?_⟩
      show _ + Out.print k _ = toOut ι (_ + Out.print k _)
      rw [map_add, toOut_unbound, toOut_print]
  | apply =>
      simp only [hresolved]
      refine ⟨hset, ?_⟩
      show _ + 0 = toOut ι (_ + 0)
      rw [map_add, toOut_unbound, map_zero]

theorem record_refines (o : Outcome) :
    Refines R (port.record cfg path lineno o : Step σ (Out ι))
      (Meaning.record cfg.native action path lineno o) := by
  cases o with
  | skipped => exact fun s m hR => ⟨hR, (map_zero _).symm⟩
  | rejected code =>
      have h := Refines.emit (R := R) (ι := ι)
        (Out.check + Out.diag ⟨code, none, path, some lineno⟩)
      rwa [map_add, toOut_check, toOut_diag] at h
  | accepted k v quoting =>
      have h := (accept_refines (ι := ι) hmap hact path lineno k v quoting).prepend Out.check
      rwa [toOut_check] at h

/-- A line that is recorded as it is classified, or printed as it is, does what
it means. -/
theorem line_refines {f : Step σ (Out ι)} {classify : Bytes → Outcome} {line : Bytes}
    (hrecord : action ≠ .normalize →
      f = Step.prepend (Out.hand line lineno) (port.record cfg path lineno (classify line)))
    (hprint : action = .normalize →
      f = Step.prepend (Out.hand line lineno)
        (if isSkipped port.isWhitespace line then Step.skip
        else Step.emit (Out.check + printed path lineno line)))
    (hskip : action = .normalize → isSkipped port.isWhitespace line = Envfile.isSkipped line) :
    Refines R f (Meaning.line cfg.native action classify path lineno line) := by
  rw [Meaning.line]
  by_cases hnorm : action = .normalize
  · have hstep : (if isSkipped port.isWhitespace line then Step.skip
          else Step.emit (Out.check + printed path lineno line) : Step σ (Out ι)) =
        Step.emit (toOut ι (Meaning.printed path lineno line)) := by
      rw [hskip hnorm, Meaning.printed, printed]
      split
      · rw [map_zero]
        rfl
      rw [map_add, toOut_check]
      congr 2
      cases splitEquals line with
      | none => exact (toOut_diag _).symm
      | some b => exact (toOut_print _ _).symm
    have h := (Refines.emit (R := R) (ι := ι) (Meaning.printed path lineno line)).prepend
      (Out.hand line lineno)
    rw [hprint hnorm, hstep, if_pos hnorm]
    rwa [toOut_hand] at h
  · have h := (record_refines (ι := ι) hmap hact path lineno (classify line)).prepend
      (Out.hand line lineno)
    rw [hrecord hnorm, if_neg hnorm]
    rwa [toOut_hand] at h

theorem processLine_refines {line : Bytes}
    (hskip : action = .normalize →
      isSkipped port.isWhitespace line = Envfile.isSkipped line) :
    Refines R (port.processLine cfg path lineno line : Step σ (Out ι))
      (Meaning.line cfg.native action (outcome port.isWhitespace cfg.native) path lineno line) := by
  refine line_refines hmap hact path lineno (fun hne => ?_) (fun hnorm => ?_) hskip
  · rw [port.processLine_eq cfg path lineno
      (by rw [hact]; exact fun h => hne (Option.some.inj h))]
  · rw [port.processLine_normalize cfg path lineno (by rw [hact, hnorm])]

end Line

/-- Under `normalize`, the lines of a file that a port passes over are the blank
lines and the comments. -/
def SkipsBlank (port : Port σ) (cfg : Knobs) (file : File) : Prop :=
  cfg.action = some .normalize →
    ∀ p ∈ handed cfg file, isSkipped port.isWhitespace p.1 = Envfile.isSkipped p.1

theorem skipsBlank_of_isBlank {port : Port σ} (h : port.isWhitespace = Envfile.isBlank)
    (cfg : Knobs) (file : File) : port.SkipsBlank cfg file := by
  intro _ p _
  rw [h, isSkipped_isBlank]

theorem processArg_refines {port : Port σ} {R : σ → Env → Prop} (hmap : port.IsMap R)
    {cfg : Knobs} {action : Action} (hact : cfg.action = some action) {file : File}
    (hskip : port.SkipsBlank cfg file) :
    Refines R (port.processArg cfg file : Step σ (Out ι))
      (ofFile (outcome port.isWhitespace) action cfg file) := by
  rw [SkipsBlank, handed, hact] at hskip
  rw [processArg, ofFile]
  cases hread : readFile cfg file with
  | error code =>
      have h := Refines.emit (R := R) (ι := ι) (Out.diag ⟨code, none, file.path, none⟩)
      rwa [toOut_diag] at h
  | ok lines =>
      rw [hread] at hskip
      refine Refines.run fun p hp => processLine_refines hmap hact file.path p.2 ?_
      intro hnorm
      exact hskip (congrArg some hnorm) p hp

/-! ## Spelling -/

/-- A step that spells the names in its diagnostics. -/
def respelled (spell : Bytes → Bytes) (f : Step σ (Out ι)) : Step σ (Out ι) := fun s =>
  ((f s).1, Out.respell spell (f s).2)

theorem run_respelled {α : Type} (spell : Bytes → Bytes) (f : α → Step σ (Out ι)) (as : List α) :
    Step.run (fun a => respelled spell (f a)) as = respelled spell (Step.run f as) := by
  funext s
  exact Step.run_hom (Out.respell spell) f as s

/-- A program whose lines are spelled versions of the shared loop's, and which
reads its files as they are read. -/
theorem processArg_respelled (port : Port σ) (cfg : Knobs) (spell : Bytes → Bytes) (file : File) :
    respelled spell (port.processArg cfg file : Step σ (Out ι)) =
      match readFile cfg file with
      | .error code => Step.emit (Out.diag ⟨code, none, file.path, none⟩)
      | .ok lines =>
          Step.run (fun p => respelled spell (port.processLine cfg file.path p.2 p.1)) lines := by
  rw [processArg]
  cases readFile cfg file with
  | error code => rfl
  | ok lines => exact (run_respelled spell _ lines).symm

/-! ## Runs -/

section Run

variable {port : Port σ} {R : σ → Env → Prop} (hmap : port.IsMap R) {cfg : Knobs}
  {action : Action} (hact : cfg.action = some action) {files : List File}
  (hskip : ∀ file ∈ files, port.SkipsBlank cfg file) {spell : Bytes → Bytes}
  {f : File → Step σ (Out ι)}
  (hfile : ∀ file ∈ files, f file = respelled spell (port.processArg cfg file))
  {environ : Environ} {s : σ} (hstart : R s (start action environ))

include hmap hact hskip hfile hstart

theorem run_eq :
    R (Step.run f files s).1 (ofRun (outcome port.isWhitespace) action cfg environ files).1 ∧
      (Step.run f files s).2 = Out.respell spell
        (toOut ι (ofRun (outcome port.isWhitespace) action cfg environ files).2) := by
  obtain ⟨hstate, hout⟩ := Refines.run (fun file hmem =>
    processArg_refines (ι := ι) hmap hact (hskip file hmem)) _ _ hstart
  rw [Step.run_congr (fun file hmem s => congrFun (hfile file hmem) s) s, run_respelled]
  refine ⟨hstate, ?_⟩
  rw [respelled, hout]
  rfl

end Run

end Envfile.Port

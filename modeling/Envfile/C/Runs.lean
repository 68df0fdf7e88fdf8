/-
# `Envfile.C.Runs` — the C program conforms

The C program reads a file in pieces, keeps its environment in a table of pairs
and counts in 32 bits; on the runs it is meant for it shows what the run means
(`program_conforms`), a line meaning what `C.outcome` says.

`Admits` has the files that its buffers, its strings and its join do not
distort: the lines fit, no NUL is let through, and the last line does not go on
behind a newline.
-/
import Envfile.C.Refines
import Envfile.Runs

namespace Envfile.C

open Assign Meaning

/-- What `main` makes of the settings: native format has no continuation. -/
def ofKnobs (cfg : Knobs) (action : Action) : Config where
  native := cfg.native
  action := action
  bom := cfg.bom
  stripCr := cfg.crlfStrip
  nulReject := cfg.nulReject
  shellCont := !cfg.native && cfg.contAccept
  native_bom := cfg.native_bom
  native_cont := fun h => by rw [h]; rfl

/-- A file that the C program reads as the format says. -/
structure Admits (cfg : Knobs) (file : File) : Prop where
  opens : file.opens = true
  nulFree : cfg.nulReject = false → Byte.nul ∉ file.contents
  bom : cfg.bom = .strip → file.contents ≠ bomBytes
  cont : cfg.native = true → cfg.contAccept = false
  linesFit : LinesFit file.contents
  joinedFit : ∀ p ∈ handed cfg file, p.1.length ≤ maxLine
  ends : cfg.contAccept = true → file.contents.getLast? = some Byte.nl →
    ∀ ls, physical cfg file.contents = .ok ls → ls.getLast?.any continues = false

/-- What the C program has of its own. -/
def dialect : Dialect where
  classify := outcome
  spell := id
  limit := 2 ^ 31
  seeds := fun _ _ => True
  admits := Admits
  rereads := true

/-! ## Files -/

section Files

variable {cfg : Knobs} {action : Action}

theorem physicalLines_eq (data : Bytes) :
    physicalLines (ofKnobs cfg action) data = stripCrs cfg (Lines.lines Byte.nl data) := by
  rw [physicalLines, stripFlag, stripCrs, allRecordsHaveTrailingCr_eq]
  cases data with
  | nil =>
      show [] = if (_ && true) = true then [] else []
      exact (ite_self _).symm
  | cons c data =>
      show (Lines.lines _ _).map (strip (cfg.crlfStrip && (true && _))) = _
      rw [Bool.true_and]
      split
      · rename_i hstrip
        rw [hstrip]
        rfl
      · rename_i hstrip
        rw [Bool.not_eq_true] at hstrip
        rw [hstrip]
        exact List.map_id _

theorem physical_prePasses {f : Bytes} (hbom : cfg.bom = .strip → f ≠ bomBytes) :
    physical cfg f =
      (prePasses (ofKnobs cfg action) (Stream.ofBytes f)).map
        (physicalLines (ofKnobs cfg action)) := by
  have hlines : ∀ data, (Except.ok data : Except Code Bytes).map
      (physicalLines (ofKnobs cfg action)) = .ok (stripCrs cfg (Lines.lines Byte.nl data)) :=
    fun data => congrArg Except.ok (physicalLines_eq data)
  rw [prePasses_eq, physical]
  show _ = Except.map _ (if cfg.nulReject = true ∧ Byte.nul ∈ f then _ else _)
  split
  · rfl
  cases hhas : bomBytes.isPrefixOf f with
  | false => exact (hlines f).symm
  | true =>
      have hbomMode : (ofKnobs cfg action).bom = cfg.bom := rfl
      rw [hbomMode]
      cases hmode : cfg.bom with
      | reject => rfl
      | literal => exact (hlines f).symm
      | strip =>
          obtain ⟨g, rfl⟩ := List.isPrefixOf_iff_prefix.mp hhas
          have hg : g ≠ [] := by
            rintro rfl
            exact hbom hmode (List.append_nil _)
          refine Eq.trans ?_ (hlines _).symm
          show Except.ok (stripCrs cfg (behindBom g)) = .ok (stripCrs cfg (Lines.lines Byte.nl g))
          rw [behindBom, if_neg hg]

theorem getLast?_of_prePasses {f data : Bytes}
    (hpass : prePasses (ofKnobs cfg action) (Stream.ofBytes f) = .ok data)
    (hdata : data ≠ []) : f.getLast? = data.getLast? := by
  rw [prePasses_eq] at hpass
  split at hpass
  · cases hpass
  split at hpass
  · rename_i hhas
    obtain ⟨g, rfl⟩ := List.isPrefixOf_iff_prefix.mp hhas
    split at hpass
    · cases hpass
    · obtain rfl : g = data := Except.ok.inj hpass
      exact List.getLast?_append_of_ne_nil _ hdata
    · rw [← Except.ok.inj hpass]
  · rw [← Except.ok.inj hpass]

theorem handedLines_eq {f data : Bytes} (hbom : cfg.bom = .strip → f ≠ bomBytes)
    (hcont : cfg.native = true → cfg.contAccept = false)
    (hends : cfg.contAccept = true → f.getLast? = some Byte.nl →
      ∀ ls, physical cfg f = .ok ls → ls.getLast?.any continues = false)
    (hpass : prePasses (ofKnobs cfg action) (Stream.ofBytes f) = .ok data) :
    handedLines (ofKnobs cfg action) data = logical cfg (physicalLines (ofKnobs cfg action) data) := by
  have hshell : (ofKnobs cfg action).shellCont = cfg.contAccept := by
    show (!cfg.native && cfg.contAccept) = _
    cases hnative : cfg.native with
    | false => rfl
    | true => rw [hcont hnative, Bool.and_false]
  rw [handedLines, logical, hshell]
  refine ite_congr rfl (fun haccept => ?_) fun _ => rfl
  rw [logicalLines, if_neg]
  rw [Bool.and_eq_true, decide_eq_true_iff, pending_eq rfl]
  rintro ⟨hrest, hpending⟩
  have hphysical : physical cfg f = .ok (physicalLines (ofKnobs cfg action) data) := by
    exact (physical_prePasses hbom).trans (congrArg _ hpass)
  rcases (Lines.rest_eq_nil_iff Byte.nl).mp hrest with rfl | ⟨t, rfl⟩
  · cases hpending
  · have hlast : f.getLast? = some Byte.nl := by
      rw [getLast?_of_prePasses hpass (List.append_ne_nil_of_right_ne_nil t (List.cons_ne_nil _ _)),
        List.getLast?_concat]
    rw [hends haccept hlast _ hphysical] at hpending
    cases hpending

theorem processArg_refines {file : File} (h : Admits cfg file) :
    Refines Represents (processArg .c (ofKnobs cfg action) file)
      (ofFile outcome action cfg file) := by
  obtain ⟨path, opens, f, failed⟩ := file
  obtain rfl : opens = true := h.opens
  have hdiag : ∀ code, Refines Represents
      (Step.emit (Out.diag ⟨code, none, path, none⟩) : Step EnvTable (Out Int32))
      (Step.emit (Out.diag ⟨code, none, path, none⟩)) := by
    intro code
    have h := Refines.emit (R := Represents) (ι := Int32) (Out.diag ⟨code, none, path, none⟩)
    rwa [toOut_diag] at h
  rw [ofFile]
  cases failed with
  | true => exact hdiag .fileUnreadable
  | false =>
      have hphysical : physical cfg f =
          (prePasses (ofKnobs cfg action) (Stream.ofBytes f)).map
            (physicalLines (ofKnobs cfg action)) := physical_prePasses h.bom
      have hread : readFile cfg ⟨path, true, f, false⟩ =
          (physical cfg f).map (logical cfg) := rfl
      have hhanded := h.joinedFit
      rw [handed, hread, hphysical] at hhanded
      have hlogical : ∀ data, prePasses (ofKnobs cfg action) (Stream.ofBytes f) = .ok data →
          handedLines (ofKnobs cfg action) data =
            logical cfg (physicalLines (ofKnobs cfg action) data) :=
        fun data hpass => handedLines_eq h.bom h.cont h.ends hpass
      have hjoined : ∀ data, prePasses (ofKnobs cfg action) (Stream.ofBytes f) = .ok data →
          JoinedFit (ofKnobs cfg action) data := by
        intro data hpass hshell q hq
        have haccept : cfg.contAccept = true := (Bool.and_eq_true_iff.mp hshell).2
        rw [hpass] at hhanded
        refine hhanded q ?_
        show q ∈ logical cfg _
        rwa [logical, if_pos haccept]
      rw [hread, hphysical]
      show Refines Represents (processFile .c (ofKnobs cfg action) path (Stream.ofBytes f)) _
      rw [processFile_eq .c (ofKnobs cfg action) path h.linesFit hjoined]
      cases hpass : prePasses (ofKnobs cfg action) (Stream.ofBytes f) with
      | error code => exact hdiag code
      | ok data =>
          show Refines Represents (Step.run _ (handedLines (ofKnobs cfg action) data))
            (Step.run _ (logical cfg (physicalLines (ofKnobs cfg action) data)))
          rw [← hlogical data hpass]
          refine Refines.run fun p hp => ?_
          have hnul : Byte.nul ∉ p.1 := by
            intro hnul
            have hdata := ((of_mem_handedLines _ (linesFit_of_prePasses h.linesFit hpass)
              (hjoined data hpass) hp).2 _ hnul).2
            cases hreject : cfg.nulReject with
            | true => exact nul_not_mem_of_prePasses hreject hpass (mem_of_prePasses hpass hdata)
            | false => exact h.nulFree hreject (mem_of_prePasses hpass hdata)
          exact @body_refines (ofKnobs cfg action) (outcome cfg.native) p.1 hnul rfl path p.2

end Files

/-! ## Runs -/

section Run

variable {cfg : Knobs} {action : Action} {environ : Environ} {files : List File}

theorem initialTable_start (henviron : Posix environ) :
    Represents (initialTable (ofKnobs cfg action) environ) (start action environ) := by
  rw [initialTable, start]
  show Represents (if action = .delta ∨ action = .apply then _ else _) _
  split
  · have hspec := envTableInitFromProcess_spec henviron.nulFree
    rwa [seeded_eq henviron.named] at hspec
  · exact ⟨keyed_zero, value_zero⟩

theorem runFiles_eq (henviron : Posix environ) (h : ∀ file ∈ files, Admits cfg file) :
    ∃ printed, Lists (shown action (ofRun outcome action cfg environ files).1) printed ∧
      (runFiles .c (ofKnobs cfg action) environ files).out =
        toOut Int32 (ofRun outcome action cfg environ files).2 + Out.printAll printed := by
  obtain ⟨⟨hkeyed, hvalue⟩, hout⟩ := Refines.run
    (fun file hfile => processArg_refines (h file hfile)) _ _
    (@initialTable_start cfg action environ henviron)
  have hlists := envTableEmitSorted_lists hkeyed
  rw [hvalue] at hlists
  refine ⟨_, lists_emitted hlists action, ?_⟩
  rw [runFiles_out, hout, emitted]
  show _ + (if action = .apply then _ else _) = _
  congr 1
  split <;> rfl

theorem toString_cast {n : Nat} (h : n < 2 ^ 31) : toString (n : Int32) = toString n := by
  show toString (n : Int32).toInt = _
  rw [show (n : Int32).toInt = n from Int32.toInt_ofNat_of_lt h]
  rfl

theorem cast_pos {n : Nat} (h : n < 2 ^ 31) : (n : Int32) > 0 ↔ n ≠ 0 := by
  rw [gt_iff_lt, Int32.lt_iff_toInt_lt, show (n : Int32).toInt = n from Int32.toInt_ofNat_of_lt h]
  show (0 : Int) < n ↔ n ≠ 0
  omega

/-- The C program, its variables read. -/
def program : Program := fun cfg environ files =>
  cfg.action.map fun action => Observed.ofReport (runFiles .c (ofKnobs cfg action) environ files)

theorem program_conforms : Conforms dialect program := by
  rintro cfg action environ files hact henviron ⟨-, hadmits, -, hcount⟩
  obtain ⟨printed, hlists, hout⟩ := runFiles_eq henviron hadmits
  have hspell := Out.respell_id (toOut Int32 (ofRun dialect.classify action cfg environ files).2)
  rw [program, hact]
  refine ⟨_, rfl, shows_of_out hlists ?_ hcount (fun n hn => toString_cast hn) ?_⟩
  · rw [hout]
    exact congrArg (· + _) hspell.symm
  · show (if (runFiles .c (ofKnobs cfg action) environ files).out.errors > 0 then 1 else 0) = _
    rw [hout, Out.add_errors, Out.printAll_errors, add_zero]
    exact if_congr (cast_pos hcount.errors) rfl rfl |>.trans (ite_not _ _ _)

end Run

/-- The C program shows what its run means. -/
theorem cMain_shows {environ : Environ} {cfg : Knobs} {action : Action}
    (hread : readConfig environ = .ok (ofKnobs cfg action)) (hact : cfg.action = some action)
    (henviron : Posix environ) (stdin : File) (args : List File)
    (hcovers : dialect.Covers action cfg environ (arguments stdin args)) :
    ∃ r, main .c environ stdin args = .ok r ∧
      dialect.Shows action cfg environ (arguments stdin args) (Observed.ofReport r) := by
  obtain ⟨o, ho, hshows⟩ := program_conforms cfg action environ _ hact henviron hcovers
  rw [program, hact] at ho
  obtain rfl := Option.some.inj ho
  exact ⟨_, by rw [main, hread]; rfl, hshows⟩

theorem sampleFiles_admits : ∀ file ∈ sampleFiles, Admits sampleKnobs file := by
  intro file hfile
  obtain rfl := List.mem_singleton.mp hfile
  exact ⟨rfl, by rintro ⟨⟩, fun _ => by decide, by rintro ⟨⟩, by decide +kernel,
    by decide +kernel, by rintro ⟨⟩⟩

theorem cMain_shows_sample :
    ∃ r, main .c sampleEnviron sampleStdin sampleFiles = .ok r ∧
      dialect.Shows .apply sampleKnobs sampleEnviron sampleFiles (Observed.ofReport r) :=
  cMain_shows rfl rfl sampleEnviron_posix sampleStdin sampleFiles
    ⟨trivial, sampleFiles_admits, nofun, by decide +kernel, by decide +kernel⟩

end Envfile.C

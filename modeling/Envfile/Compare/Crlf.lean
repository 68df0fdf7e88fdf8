/-
# `Envfile.Compare.Crlf` — files with DOS line ends

`crlf` puts a CR in front of every newline.  The CRLF pass takes the CRs off
again when every line ends in one, and a last line that no newline closes has
none.  So the pass undoes `crlf` for the files that end in a newline, in the
reference and in the C front end (`crlf_undone`), as long as the lines with
their CRs fit the C reading loop; and it does nothing for a file of several
lines that does not end in a newline.
-/
import Envfile.Compare.Files
import Envfile.C.Window

namespace Envfile

/-! ## The conversion -/

/-- Every newline as CR and newline. -/
def crlf (f : Bytes) : Bytes := f.flatMap fun c => if c = Byte.nl then [Byte.cr, Byte.nl] else [c]

theorem crlf_append (s t : Bytes) : crlf (s ++ t) = crlf s ++ crlf t := List.flatMap_append

theorem crlf_cons {c : UInt8} (hc : c ≠ Byte.nl) (s : Bytes) : crlf (c :: s) = c :: crlf s := by
  show (if c = Byte.nl then [Byte.cr, Byte.nl] else [c]) ++ crlf s = _
  rw [if_neg hc]
  rfl

theorem crlf_of_not_mem {s : Bytes} (h : Byte.nl ∉ s) : crlf s = s := by
  induction s with
  | nil => rfl
  | cons c s ih =>
      rw [List.mem_cons, not_or] at h
      rw [crlf_cons (Ne.symm h.1), ih h.2]

theorem mem_crlf {c : UInt8} (hc : c ≠ Byte.cr) {f : Bytes} : c ∈ crlf f ↔ c ∈ f := by
  induction f with
  | nil => exact Iff.rfl
  | cons d f ih =>
      by_cases hd : d = Byte.nl
      · subst hd
        show c ∈ Byte.cr :: Byte.nl :: crlf f ↔ _
        rw [List.mem_cons, List.mem_cons, List.mem_cons, ih]
        exact ⟨fun h => h.resolve_left hc, Or.inr⟩
      · rw [crlf_cons hd, List.mem_cons, List.mem_cons, ih]

theorem crlf_ne_nil {f : Bytes} (h : f ≠ []) : crlf f ≠ [] := by
  cases f with
  | nil => exact absurd rfl h
  | cons c f =>
      by_cases hc : c = Byte.nl
      · subst hc
        exact List.cons_ne_nil Byte.cr (Byte.nl :: crlf f)
      · rw [crlf_cons hc]
        exact List.cons_ne_nil c (crlf f)

/-- A line with its CR. -/
def withCr (l : Bytes) : Bytes := l ++ [Byte.cr]

theorem crlf_unlines {ls : List Bytes} (h : ∀ l ∈ ls, Byte.nl ∉ l) :
    crlf (Lines.unlines Byte.nl ls) = Lines.unlines Byte.nl (ls.map withCr) := by
  induction ls with
  | nil => rfl
  | cons l ls ih =>
      have hl : crlf l = l := crlf_of_not_mem (h l List.mem_cons_self)
      rw [Lines.unlines_cons, List.map_cons, Lines.unlines_cons, crlf_append, hl,
        ← ih fun m hm => h m (List.mem_cons_of_mem _ hm), withCr, List.append_assoc]
      rfl

theorem lines_crlf {f : Bytes} (h : Lines.rest Byte.nl f = []) :
    Lines.lines Byte.nl (crlf f) = (Lines.lines Byte.nl f).map withCr := by
  have hlines : ∀ l ∈ Lines.lines Byte.nl f, Byte.nl ∉ l := fun l => Lines.sep_not_mem_lines Byte.nl
  have hcrlf := crlf_unlines hlines
  rw [Lines.unlines_lines Byte.nl h] at hcrlf
  rw [hcrlf]
  refine Lines.lines_unlines Byte.nl ?_
  intro m hm hnl
  obtain ⟨l, hl, rfl⟩ := List.mem_map.mp hm
  rcases List.mem_append.mp hnl with hnl | hnl
  · exact hlines l hl hnl
  · cases List.mem_singleton.mp hnl

theorem prefix_crlf {u : Bytes} (hnl : Byte.nl ∉ u) (hcr : Byte.cr ∉ u) (f : Bytes) :
    u.isPrefixOf (crlf f) = u.isPrefixOf f := by
  induction u generalizing f with
  | nil => rfl
  | cons a u ih =>
      rw [List.mem_cons, not_or] at hnl hcr
      cases f with
      | nil => rfl
      | cons c f =>
          by_cases hc : c = Byte.nl
          · subst hc
            have hcr' : (a == Byte.cr) = false := beq_eq_false_iff_ne.mpr (Ne.symm hcr.1)
            have hnl' : (a == Byte.nl) = false := beq_eq_false_iff_ne.mpr (Ne.symm hnl.1)
            show (a == Byte.cr && _) = (a == Byte.nl && _)
            rw [hcr', hnl']
            rfl
          · rw [crlf_cons hc]
            show (a == c && u.isPrefixOf (crlf f)) = (a == c && u.isPrefixOf f)
            rw [ih hnl.2 hcr.2]

theorem hasBom_crlf (f : Bytes) : bomBytes.isPrefixOf (crlf f) = bomBytes.isPrefixOf f :=
  prefix_crlf (by decide) (by decide) f

/-- A file without a newline, or with one at its end. -/
def Ended (f : Bytes) : Prop := Byte.nl ∉ f ∨ f.getLast? = some Byte.nl

theorem rest_of_getLast? {f : Bytes} (h : f.getLast? = some Byte.nl) :
    Lines.rest Byte.nl f = [] := by
  obtain ⟨t, rfl⟩ := List.getLast?_eq_some_iff.mp h
  exact Lines.rest_concat Byte.nl t

theorem getLast?_afterBom {g : Bytes} (h : (bomBytes ++ g).getLast? = some Byte.nl) :
    g.getLast? = some Byte.nl := by
  rcases eq_or_ne g [] with rfl | hne
  · exact absurd h (by decide)
  · rwa [List.getLast?_append_of_ne_nil _ hne] at h

theorem Ended.afterBom {g : Bytes} (h : Ended (bomBytes ++ g)) : Ended g :=
  h.imp (fun hno hg => hno (List.mem_append_right _ hg)) getLast?_afterBom

theorem map_trimCr_withCr (ls : List Bytes) : (ls.map withCr).map trimCr = ls := by
  have hid : ∀ l ∈ ls, (trimCr ∘ withCr) l = id l := fun l _ => trimCr_concat_cr l
  rw [List.map_map, List.map_congr_left hid, List.map_id]

theorem all_withCr (ls : List Bytes) :
    ((ls.map withCr).all fun l => l.getLast? == some Byte.cr) = true := by
  rw [List.all_map, List.all_eq_true]
  intro l _
  show ((l ++ [Byte.cr]).getLast? == some Byte.cr) = true
  rw [List.getLast?_concat, beq_self_eq_true]

theorem map_trimCr_lines {f : Bytes} (h : Byte.cr ∉ f) :
    (Lines.lines Byte.nl f).map trimCr = Lines.lines Byte.nl f := by
  have hid : ∀ l ∈ Lines.lines Byte.nl f, trimCr l = id l := by
    intro l hl
    refine trimCr_of_getLast? ?_
    intro hlast
    exact h (Lines.mem_of_mem_lines Byte.nl hl (List.mem_of_getLast? hlast))
  rw [List.map_congr_left hid, List.map_id]

/-! ## The reference -/

namespace Awk

theorem stripCrlf_crlf {f : Bytes} (hcr : Byte.cr ∉ f) (hclosed : Lines.rest Byte.nl f = []) :
    stripCrlf (Lines.lines Byte.nl (crlf f)) = stripCrlf (Lines.lines Byte.nl f) := by
  have hlines : stripCrlf (Lines.lines Byte.nl f) = Lines.lines Byte.nl f := by
    rw [stripCrlf_eq]
    split
    · exact map_trimCr_lines hcr
    · rfl
  rw [hlines, stripCrlf_eq, lines_crlf hclosed, all_withCr, if_pos rfl, map_trimCr_withCr]

variable {knobs : Knobs} {f : Bytes}

theorem readLines_crlf (hstrip : knobs.crlfStrip = true) (hcr : Byte.cr ∉ f) (hended : Ended f)
    (path : Bytes) :
    readLines knobs (.readable path (crlf f)) = readLines knobs (.readable path f) := by
  rcases hended with hno | hlast
  · rw [crlf_of_not_mem hno]
  have hclosed := rest_of_getLast? hlast
  have hnul : Byte.nul ∈ crlf f ↔ Byte.nul ∈ f := mem_crlf (by decide)
  rw [readLines_eq, readLines_eq, bomPass_lines, bomPass_lines, hasBom_crlf]
  simp only [hnul, hstrip, if_true]
  have hok : ∀ {ls ms : List Bytes}, stripCrlf ls = stripCrlf ms →
      (Except.ok ls : Except Code _).map stripCrlf = (Except.ok ms).map stripCrlf := by
    intro ls ms h
    exact congrArg Except.ok h
  split
  · rfl
  split
  · rename_i hbom
    obtain ⟨g, rfl⟩ := List.isPrefixOf_iff_prefix.mp hbom
    have hg := getLast?_afterBom hlast
    have hne : g ≠ [] := by
      rintro rfl
      cases hg
    have hne' := crlf_ne_nil hne
    have hdrop : (bomBytes ++ g).drop 3 = g := rfl
    have hdrop' : (crlf (bomBytes ++ g)).drop 3 = crlf g := rfl
    cases knobs.bom with
    | reject => rfl
    | literal => exact hok (stripCrlf_crlf hcr hclosed)
    | strip =>
        refine hok ?_
        rw [hdrop, hdrop', Meaning.behindBom, Meaning.behindBom, if_neg hne, if_neg hne']
        exact stripCrlf_crlf (fun h => hcr (List.mem_append_right _ h)) (rest_of_getLast? hg)
  · exact hok (stripCrlf_crlf hcr hclosed)

theorem normalize_crlf (hstrip : knobs.crlfStrip = true) (hcr : Byte.cr ∉ f) (hended : Ended f)
    (path : Bytes) :
    normalize knobs (.readable path (crlf f)) = normalize knobs (.readable path f) := by
  rw [normalize, normalize, readLines_crlf hstrip hcr hended]
  rfl

theorem runFiles_crlf (hstrip : knobs.crlfStrip = true) (hcr : Byte.cr ∉ f) (hended : Ended f)
    (environ : Environ) (order : EnvArray → List Bytes) (path : Bytes) :
    runFiles knobs environ order [.readable path (crlf f)] =
      runFiles knobs environ order [.readable path f] := by
  have hrun : ∀ env, Step.run (normalize knobs)
      ([File.readable (argPath path) (crlf f)].filter fun f => f.path != []) env =
      Step.run (normalize knobs)
        ([File.readable (argPath path) f].filter fun f => f.path != []) env := by
    intro env
    rw [List.filter_cons, List.filter_cons]
    show Step.run (normalize knobs) (if (argPath path != []) = true then _ else _) env =
      Step.run (normalize knobs) (if (argPath path != []) = true then _ else _) env
    split
    · rw [List.filter_nil, Step.run_singleton, Step.run_singleton,
        normalize_crlf hstrip hcr hended]
    · rfl
  exact congrArg (fun run : EnvArray × Out Nat =>
    let total := run.2 +
      if knobs.action = some .apply then
        { (0 : Out Nat) with stdout := emitEnvSorted run.1 (order run.1) }
      else 0
    (⟨total, if total.errors ≠ 0 then 1 else 0⟩ : Report Nat)) (hrun (initialEnv knobs environ))

end Awk

/-! ## The C front end -/

namespace C

variable {cfg : Config} {f : Bytes}

theorem prePasses_crlf (cfg : Config) (f : Bytes) :
    prePasses cfg (Stream.ofBytes (crlf f)) = (prePasses cfg (Stream.ofBytes f)).map crlf := by
  have hnul : Byte.nul ∈ crlf f ↔ Byte.nul ∈ f := mem_crlf (by decide)
  rw [prePasses_eq, prePasses_eq, hasBom_crlf]
  simp only [hnul]
  split
  · rfl
  split
  · rename_i hbom
    obtain ⟨g, rfl⟩ := List.isPrefixOf_iff_prefix.mp hbom
    cases cfg.bom <;> rfl
  · rfl

theorem ended_of_prePasses {data : Bytes} (h : prePasses cfg (Stream.ofBytes f) = .ok data)
    (hended : Ended f) : Ended data := by
  rw [prePasses_eq] at h
  split at h
  · cases h
  split at h
  · rename_i hbom
    obtain ⟨g, rfl⟩ := List.isPrefixOf_iff_prefix.mp hbom
    split at h
    · cases h
    · obtain rfl := Except.ok.inj h
      exact hended.afterBom
    · obtain rfl := Except.ok.inj h
      exact hended
  · obtain rfl := Except.ok.inj h
    exact hended

theorem streamEvents_crlf {data : Bytes} (hstrip : cfg.stripCr = true) (hcr : Byte.cr ∉ data)
    (hlast : data.getLast? = some Byte.nl) (hfit : LinesFit (crlf data)) (shellCont : Bool) :
    streamEvents (stripFlag cfg (crlf data)) shellCont (Stream.ofBytes (crlf data)) =
      streamEvents (stripFlag cfg data) shellCont (Stream.ofBytes data) := by
  have hclosed := rest_of_getLast? hlast
  have hlines := lines_crlf hclosed
  have hfit' : LinesFit data := by
    intro l hl
    have hlen := hfit (withCr l) (by rw [hlines]; exact List.mem_map_of_mem hl)
    rw [withCr, List.length_append] at hlen
    exact Nat.le_of_succ_le hlen
  have hclosed' : Lines.rest Byte.nl (crlf data) = [] := by
    obtain ⟨t, rfl⟩ := List.getLast?_eq_some_iff.mp hlast
    have hend : crlf (t ++ [Byte.nl]) = (crlf t ++ [Byte.cr]) ++ [Byte.nl] := by
      rw [crlf_append, List.append_assoc]
      rfl
    rw [hend, Lines.rest_concat]
  have hflag : stripFlag cfg (crlf data) = true := by
    have hne : (crlf data).isEmpty = false := by
      rw [Bool.eq_false_iff, Ne, List.isEmpty_iff]
      exact crlf_ne_nil (List.ne_nil_of_mem (List.mem_of_getLast? hlast))
    rw [stripFlag, hstrip, allRecordsHaveTrailingCr_eq, hne, hlines, all_withCr]
    rfl
  have hmap : ∀ b, (Lines.lines Byte.nl data).map (strip b) = Lines.lines Byte.nl data := by
    intro b
    cases b with
    | true => exact map_trimCr_lines hcr
    | false => exact List.map_id _
  have hmap' : (Lines.lines Byte.nl (crlf data)).map (strip true) = Lines.lines Byte.nl data := by
    rw [hlines]
    exact map_trimCr_withCr _
  rw [hflag, streamEvents_eq _ _ hfit, streamEvents_eq _ _ hfit', Lines.records_eq_mark,
    Lines.records_eq_mark, linesLoop_strip, linesLoop_strip (stripFlag cfg data), hmap, hmap',
    hclosed, hclosed']

theorem processFile_crlf (backend : Backend) (hstrip : cfg.stripCr = true) (hcr : Byte.cr ∉ f)
    (hended : Ended f) (hfit : Byte.nl ∈ f → LinesFit (crlf f)) (tag : Bytes) :
    processFile backend cfg tag (Stream.ofBytes (crlf f)) =
      processFile backend cfg tag (Stream.ofBytes f) := by
  have hcrlf := prePasses_crlf cfg f
  rw [processFile_events, processFile_events, hcrlf]
  cases hpass : prePasses cfg (Stream.ofBytes f) with
  | error code => rfl
  | ok data =>
      rw [hpass] at hcrlf
      show Step.run _ (streamEvents (stripFlag cfg (crlf data)) cfg.shellCont
        (Stream.ofBytes (crlf data))) = Step.run _ _
      have hcr' : Byte.cr ∉ data := fun h => hcr (mem_of_prePasses hpass h)
      rcases ended_of_prePasses hpass hended with hno | hlast
      · rw [crlf_of_not_mem hno]
      · have hnl : Byte.nl ∈ f := mem_of_prePasses hpass (List.mem_of_getLast? hlast)
        rw [streamEvents_crlf hstrip hcr' hlast (linesFit_of_prePasses (hfit hnl) hcrlf)]

end C

/-! ## Both -/

/-- The CRLF pass undoes the conversion of a file that ends in a newline. -/
theorem crlf_undone {f : Bytes} (hcr : Byte.cr ∉ f) (hended : Ended f) :
    (∀ (knobs : Knobs) (environ : Environ) (order : Awk.EnvArray → List Bytes) (path : Bytes),
      knobs.crlfStrip = true →
        Awk.runFiles knobs environ order [.readable path (crlf f)] =
          Awk.runFiles knobs environ order [.readable path f]) ∧
    ((Byte.nl ∈ f → C.LinesFit (crlf f)) →
      ∀ (backend : C.Backend) (cfg : C.Config) (environ : Environ) (path : Bytes),
        cfg.stripCr = true →
          C.runFiles backend cfg environ [.readable path (crlf f)] =
            C.runFiles backend cfg environ [.readable path f]) := by
  refine ⟨?_, ?_⟩
  · intro knobs environ order path hstrip
    exact Awk.runFiles_crlf hstrip hcr hended environ order path
  · intro hfit backend cfg environ path hstrip
    have harg : C.processArg backend cfg (.readable path (crlf f)) =
        C.processArg backend cfg (.readable path f) :=
      C.processFile_crlf backend hstrip hcr hended hfit path
    have hrun : ∀ env, Step.run (C.processArg backend cfg) [.readable path (crlf f)] env =
        Step.run (C.processArg backend cfg) [.readable path f] env := by
      intro env
      rw [Step.run_singleton, Step.run_singleton, harg]
    simp only [C.runFiles, hrun]

/-- `dump`, with CRs stripped. -/
def C.Config.crlfDump : C.Config :=
  { C.Config.default with
    action := .dump
    stripCr := true
    native_bom := nofun
    native_cont := nofun }

/-- A file with a BOM and a comment. -/
theorem crlf_undone_plain :
    let path := ascii "f"
    let f := bomBytes ++ ascii "#a\nB=1\n"
    Awk.runFiles C.Config.crlfDump.knobs [] (fun _ => []) [.readable path (crlf f)] =
        Awk.runFiles C.Config.crlfDump.knobs [] (fun _ => []) [.readable path f] ∧
      C.runFiles .c .crlfDump [] [.readable path (crlf f)] =
        C.runFiles .c .crlfDump [] [.readable path f] := by
  intro path f
  have hended : Ended f := Or.inr (by decide)
  have hcr : Byte.cr ∉ f := by decide
  exact ⟨(crlf_undone hcr hended).1 _ [] _ path rfl,
    (crlf_undone hcr hended).2 (by decide) .c _ [] path rfl⟩

/-- A line that has no room in the window with its CR. -/
def longLine : Bytes := 65 :: List.replicate 65534 65

theorem mem_longLine {c : UInt8} (h : c ∈ longLine) : c = 65 := by
  rcases List.mem_cons.mp h with h | h
  · exact h
  · exact List.eq_of_mem_replicate h

theorem length_longLine : longLine.length = 65535 := by
  rw [longLine, List.length_cons, List.length_replicate]

/-- It is too long as soon as it has one. -/
theorem reports_longLine :
    C.Reports .c .crlfDump [] .zero (crlf (longLine ++ [Byte.nl])) ∧
      ¬ C.Reports .c .crlfDump [] .zero (longLine ++ [Byte.nl]) := by
  have hnl : Byte.nl ∉ longLine := by
    intro h
    cases mem_longLine h
  have hcrlf : crlf (longLine ++ [Byte.nl]) = withCr longLine ++ [Byte.nl] := by
    rw [crlf_append, crlf_of_not_mem hnl, withCr, List.append_assoc]
    rfl
  have hwork : C.workBuf = 65536 := rfl
  have hlen := length_longLine
  refine ⟨?_, ?_⟩
  · have hnul : ¬ (C.Config.crlfDump.nulReject = true ∧
        Byte.nul ∈ withCr longLine ++ [Byte.nl]) := by
      rintro ⟨-, h⟩
      rw [withCr, List.append_assoc] at h
      rcases List.mem_append.mp h with h | h
      · cases mem_longLine h
      · revert h
        decide
    have hline : Byte.nl ∉ withCr longLine := by
      intro h
      rcases List.mem_append.mp h with h | h
      · exact hnl h
      · cases List.mem_singleton.mp h
    have hmark : C.unmarked C.Config.crlfDump (withCr longLine) = withCr longLine := by
      rw [C.unmarked, if_neg]
      rintro ⟨-, ⟨⟩⟩
    rw [hcrlf]
    refine C.reports_of_long .c [] .zero (C.prePasses_line (by decide) hnul) ?_
    rw [hmark, Lines.lines_line Byte.nl hline]
    refine ⟨withCr longLine, List.mem_cons_self, ?_⟩
    rw [withCr, List.length_append, List.length_singleton]
    omega
  · have hnul : ¬ (C.Config.crlfDump.nulReject = true ∧ Byte.nul ∈ longLine ++ [Byte.nl]) := by
      rintro ⟨-, h⟩
      rcases List.mem_append.mp h with h | h
      · cases mem_longLine h
      · cases List.mem_singleton.mp h
    refine C.not_reports_of_short .c [] .zero rfl (C.prePasses_line (by decide) hnul) ?_ ?_
    · have hle := (@C.unmarked_sublist C.Config.crlfDump longLine).length_le
      rw [List.length_append, List.length_singleton]
      omega
    · exact Lines.rest_concat Byte.nl _

/-- A last line without its newline, and a line that fits without its CR. -/
theorem crlf_not_undone :
    let f := ascii "A=1\nB=2"
    let knobs := C.Config.crlfDump.knobs
    ((Awk.runFiles knobs [] (fun _ => []) [.readable (ascii "f") (crlf f)]).out.bytes =
        ascii "A=1\r\nB=2\n" ∧
      (Awk.runFiles knobs [] (fun _ => []) [.readable (ascii "f") f]).out.bytes =
        ascii "A=1\nB=2\n") ∧
    ((C.runFiles .c .crlfDump [] [.readable [] (crlf f)]).out.bytes = ascii "A=1\r\nB=2\n" ∧
      (C.runFiles .c .crlfDump [] [.readable [] f]).out.bytes = ascii "A=1\nB=2\n") ∧
    (C.Reports .c .crlfDump [] .zero (crlf (longLine ++ [Byte.nl])) ∧
      ¬ C.Reports .c .crlfDump [] .zero (longLine ++ [Byte.nl])) :=
  ⟨⟨by decide +kernel, by decide +kernel⟩, ⟨by decide, by decide⟩, reports_longLine⟩

end Envfile

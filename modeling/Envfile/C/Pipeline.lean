/-
# `Envfile.C.Pipeline` — normalizing first

`normalize` prints the lines that are assignments, whatever their keys and
values, with every pass done.  Another action on what it printed, with every
pass off, does what it would have done on the file: the lines that are left
out are those it skips or rejects for want of an `=`.

The diagnostics of the two stages are those of the one stage: the first stage
has the rejected files and the lines without `=`, the second stage the rest
(`secondStage`).
-/
import Envfile.C.Concat

namespace Envfile.C

/-! ## What normalize keeps -/

theorem normalizeRecord_bytes (tag line : Bytes) (lineNo : Nat) :
    (normalizeRecord tag line lineNo).bytes =
      if isAssignment line then line ++ [Byte.nl] else [] := by
  have hblank : isBlankOrCommentLine line = isSkipped line := isBlankOrCommentRecord_eq line
  rw [normalizeRecord, hblank, isAssignment]
  cases isSkipped line with
  | true => rfl
  | false =>
      rcases line_shape line with ⟨hno, -⟩ | ⟨k, v, rfl, hk, -⟩
      · rw [memchr_eq_none.mpr hno, decide_eq_false hno]
        rfl
      · have hmem : Byte.equals ∈ k ++ Byte.equals :: v :=
          List.mem_append_right _ List.mem_cons_self
        have hvalue : bytesAt (k ++ Byte.equals :: v) (k.length + 1)
            ((k ++ Byte.equals :: v).length - k.length - 1) = v := by
          rw [length_after_key, bytesAt, drop_after, List.take_length]
        rw [memchr_append hk, decide_eq_true hmem]
        simp only [take_before, hvalue]
        exact List.append_nil (Binding.text (k, v))

theorem run_normalize_bytes (tag : Bytes) (lines : List (Bytes × Nat)) (env : EnvTable) :
    (Step.run (fun p => Step.emit (normalizeRecord tag p.1 p.2)) lines env).2.bytes =
      Lines.unlines Byte.nl ((lines.map Prod.fst).filter isAssignment) := by
  induction lines generalizing env with
  | nil => rfl
  | cons p lines ih =>
      rw [Step.run_cons, Out.bytes_add, ih, List.map_cons]
      show (normalizeRecord tag p.1 p.2).bytes ++ _ = _
      rw [normalizeRecord_bytes]
      cases h : isAssignment p.1 with
      | true =>
          rw [List.filter_cons_of_pos h, Lines.unlines_cons, if_pos rfl, List.append_assoc]
          rfl
      | false =>
          rw [List.filter_cons_of_neg (by rw [h]; exact Bool.false_ne_true),
            if_neg Bool.false_ne_true, List.nil_append]

/-! ## The second stage -/

/-- A code that is not reported by the first stage. -/
def ofSecondStage (code : Code) : Bool := code != .noEquals && !code.isFileError

/-- The part of an output that the second stage has, too. -/
def secondStage : Out Int32 →+ Out Int32 where
  toFun o := ⟨o.stdout, o.diags.filter fun d => ofSecondStage d.code, 0, 0, []⟩
  map_zero' := rfl
  map_add' o p := by ext1 <;> simp

theorem secondStage_stdout (o : Out Int32) : (secondStage o).stdout = o.stdout := rfl

theorem secondStage_codes (o : Out Int32) :
    (secondStage o).codes = o.codes.filter ofSecondStage := by
  rw [Out.codes, Out.codes, List.filter_map]
  rfl

section Stage

variable {cfg : Config}

theorem outcome_dropped {native : Bool} {line : Bytes} (hnul : Byte.nul ∉ line)
    (h : isAssignment line = false) :
    outcome native line = .skipped ∨ outcome native line = .rejected .noEquals := by
  have key : ∀ f : Bytes → Bytes → Outcome,
      lineOutcomeC f line = .skipped ∨ lineOutcomeC f line = .rejected .noEquals := by
    intro f
    rw [lineOutcomeC, if_neg hnul]
    rw [isAssignment] at h
    cases hskip : isSkipped line with
    | true => exact Or.inl rfl
    | false =>
        rw [hskip, Bool.not_false, Bool.true_and, decide_eq_false_iff_not] at h
        rw [if_neg Bool.false_ne_true, assignmentOutcome, splitEquals_none.mpr h]
        exact Or.inr rfl
  cases native with
  | true => exact key _
  | false => exact key _

theorem body_dropped (hact : cfg.action ≠ .normalize) {line : Bytes} (hnul : Byte.nul ∉ line)
    (h : isAssignment line = false) (tag : Bytes) (lineNo : Nat) (env : EnvTable) :
    (body .c cfg tag line lineNo env).1 = env ∧
      secondStage (body .c cfg tag line lineNo env).2 = 0 := by
  rw [body_eq cfg hact]
  rcases @outcome_dropped cfg.native line hnul h with ho | ho
  · rw [ho]
    exact ⟨rfl, rfl⟩
  · rw [ho]
    exact ⟨rfl, rfl⟩

theorem codes_body (hact : cfg.action ≠ .normalize) {line : Bytes} (h : isAssignment line = true)
    (tag : Bytes) (lineNo : Nat) (env : EnvTable) :
    ∀ code ∈ (body .c cfg tag line lineNo env).2.codes, ofSecondStage code = true := by
  intro code hcode
  rw [isAssignment, Bool.and_eq_true, decide_eq_true_iff] at h
  rw [body_eq cfg hact, Step.prepend_snd, Out.codes_add, Out.codes_hand, List.nil_append] at hcode
  cases ho : outcome cfg.native line with
  | skipped =>
      rw [ho] at hcode
      exact absurd hcode List.not_mem_nil
  | rejected fault =>
      rw [ho] at hcode
      obtain rfl : code = fault := List.mem_singleton.mp hcode
      rcases outcome_rejected ho with ⟨-, hno⟩ | hassign
      · exact absurd h.2 hno
      · revert hassign
        cases code <;> decide
  | accepted k v quoting =>
      rw [ho] at hcode
      have hcode : code ∈ (accept tag cfg.action cfg.native lineNo k v quoting env).2.codes := hcode
      rw [codes_accept _ _ _ _ _ _ _ _ _ hcode]
      rfl

theorem runLines_kept (hact : cfg.action ≠ .normalize) {ls : List Bytes}
    (hnul : ∀ l ∈ ls, Byte.nul ∉ l) (env : EnvTable) :
    (runLines .c cfg (ls.filter isAssignment) env).1 = (runLines .c cfg ls env).1 ∧
      secondStage (runLines .c cfg (ls.filter isAssignment) env).2 =
        secondStage (runLines .c cfg ls env).2 := by
  let stage : Bytes → Step EnvTable (Out Int32) := fun l s =>
    ((body .c cfg [] l 0 s).1, secondStage (body .c cfg [] l 0 s).2)
  have hhom : ∀ ms : List Bytes, Step.run stage ms env =
      ((runLines .c cfg ms env).1, secondStage (runLines .c cfg ms env).2) := fun ms =>
    Step.run_hom secondStage (fun l => body .c cfg [] l 0) ms env
  have hfilter : Step.run stage (ls.filter isAssignment) env = Step.run stage ls env := by
    refine Step.run_filter isAssignment (fun l hl hno s => ?_) env
    obtain ⟨hstate, hout⟩ := body_dropped hact (hnul l hl) hno [] 0 s
    exact Prod.ext hstate hout
  rw [hhom, hhom] at hfilter
  exact Prod.mk.inj hfilter

theorem codes_runLines_kept (hact : cfg.action ≠ .normalize) (ls : List Bytes) (env : EnvTable) :
    (runLines .c cfg (ls.filter isAssignment) env).2.codes.filter ofSecondStage =
      (runLines .c cfg (ls.filter isAssignment) env).2.codes := by
  rw [List.filter_eq_self]
  refine Step.run_out (fun _ => True) (fun o => ∀ code ∈ Out.codes o, ofSecondStage code = true)
    (fun _ h => absurd h List.not_mem_nil) ?_ ?_ trivial
  · intro v w hv hw code hcode
    rw [Out.codes_add, List.mem_append] at hcode
    exact hcode.elim (hv code) (hw code)
  · intro l hl env _
    exact ⟨trivial, codes_body hact (List.mem_filter.mp hl).2 [] 0 env⟩

end Stage

/-! ## Both stages -/

section Both

variable {cfg : Config} {action : Action} {f : Bytes}

/-- Some of the lines that a file hands on, written down: they are the lines
of a file that the passes let through. -/
theorem handed_unlines (keep : Bytes → Bool) (hfit : LinesFit f) {data : Bytes}
    (hpass : prePasses cfg (Stream.ofBytes f) = .ok data) (hjoined : JoinedFit cfg data)
    (hmem : Byte.nul ∉ f) :
    let ls := (handedLines cfg data).map Prod.fst
    (∀ l ∈ ls, Byte.nul ∉ l) ∧
      Lines.lines Byte.nl (Lines.unlines Byte.nl (ls.filter keep)) = ls.filter keep ∧
      Byte.nul ∉ Lines.unlines Byte.nl (ls.filter keep) ∧
      LinesFit (Lines.unlines Byte.nl (ls.filter keep)) := by
  intro ls
  have hls : ∀ l ∈ ls, l.length ≤ maxLine ∧ Byte.nl ∉ l ∧ Byte.nul ∉ l := by
    intro l hl
    obtain ⟨r, hr, rfl⟩ := List.mem_map.mp hl
    obtain ⟨hlen, hbytes⟩ :=
      of_mem_handedLines cfg (linesFit_of_prePasses hfit hpass) hjoined hr
    exact ⟨hlen, fun h => (hbytes _ h).1 rfl,
      fun h => hmem (mem_of_prePasses hpass (hbytes _ h).2)⟩
  have hkept : ∀ l ∈ ls.filter keep, l.length ≤ maxLine ∧ Byte.nl ∉ l ∧ Byte.nul ∉ l :=
    fun l hl => hls l (List.mem_filter.mp hl).1
  have hnl : ∀ l ∈ ls.filter keep, Byte.nl ∉ l := fun l hl => (hkept l hl).2.1
  exact ⟨fun l hl => (hls l hl).2.2, Lines.lines_unlines Byte.nl hnl,
    nul_not_mem_unlines fun l hl => (hkept l hl).2.2,
    linesFit_unlines hnl fun l hl => (hkept l hl).1⟩

theorem processFile_stages (hact : action ≠ .normalize) (hnul : cfg.nulReject = true)
    (hfit : LinesFit f)
    (hjoined : ∀ data, prePasses cfg (Stream.ofBytes f) = .ok data → JoinedFit cfg data)
    (p q : Bytes) (env env₀ : EnvTable) :
    let direct := processFile .c (cfg.withAction action) p (Stream.ofBytes f) env
    let first := processFile .c (cfg.withAction .normalize) p (Stream.ofBytes f) env₀
    let second := processFile .c (.plain cfg.native action) q (Stream.ofBytes first.2.bytes) env
    direct.1 = second.1 ∧ direct.2.stdout = second.2.stdout ∧
      direct.2.codes.filter ofSecondStage = second.2.codes := by
  intro direct first second
  have hdirect : direct = _ :=
    congrFun (processFile_eq .c (cfg.withAction action) p hfit hjoined) env
  have hfirst : first = _ :=
    congrFun (processFile_eq .c (cfg.withAction .normalize) p hfit hjoined) env₀
  have hsame : ∀ a, prePasses (cfg.withAction a) (Stream.ofBytes f) =
      prePasses cfg (Stream.ofBytes f) := fun _ => rfl
  rw [hsame] at hdirect hfirst
  cases hpass : prePasses cfg (Stream.ofBytes f) with
  | error code =>
      -- the file is rejected, and the second stage has no line
      simp only [hpass] at hdirect hfirst
      have hbytes : first.2.bytes = [] := by rw [hfirst]; rfl
      have hsecond : second = (env, 0) := by
        show processFile .c (.plain cfg.native action) q (Stream.ofBytes first.2.bytes) env = _
        rw [hbytes, processFile_plain .c (plain_plain _ _) q List.not_mem_nil
          (fun _ h => absurd h List.not_mem_nil)]
        rfl
      rw [hdirect, hsecond]
      refine ⟨rfl, rfl, ?_⟩
      rcases prePasses_error hpass with ⟨rfl, -⟩ | ⟨rfl, -⟩ <;> rfl
  | ok data =>
      simp only [hpass] at hdirect hfirst
      have hmem := nul_not_mem_of_prePasses hnul hpass
      let ls := (handedLines cfg data).map Prod.fst
      -- what the first stage prints is its assignments, line by line
      have hbytes : first.2.bytes = Lines.unlines Byte.nl (ls.filter isAssignment) := by
        rw [hfirst]
        exact run_normalize_bytes p (handedLines cfg data) env₀
      obtain ⟨hnuls, hlines, hnul', hfit'⟩ :=
        handed_unlines isAssignment hfit hpass (hjoined data hpass) hmem
      rw [← hbytes] at hlines hnul' hfit'
      obtain ⟨hstate, htext⟩ := processFile_runLines .c (plain_plain cfg.native action) q hnul'
        hfit' env
      obtain ⟨hstate', htext'⟩ := runLines_places .c (cfg.withAction action) p
        (handedLines cfg data) env
      have hbody : runLines .c (.plain cfg.native action) =
          runLines .c (cfg.withAction action) := rfl
      obtain ⟨hrun, hstage⟩ := @runLines_kept (cfg.withAction action) hact ls hnuls env
      rw [hlines, hbody] at hstate htext
      have hout := congrArg Out.stdout hstage
      have hcodes := congrArg Out.codes hstage
      rw [secondStage_stdout, secondStage_stdout] at hout
      rw [secondStage_codes, secondStage_codes, codes_runLines_kept hact] at hcodes
      rw [hdirect]
      refine ⟨?_, ?_, ?_⟩
      · exact hstate'.trans (hrun.symm.trans hstate.symm)
      · exact htext'.stdout.trans (hout.symm.trans htext.stdout.symm)
      · exact (congrArg _ htext'.codes).trans (hcodes.symm.trans htext.codes.symm)

/-- An action on a file prints what the action prints after `normalize`, with
the passes off; the codes are the same but for those that `normalize` has
reported. -/
theorem normalize_first (hact : action ≠ .normalize) (hnul : cfg.nulReject = true)
    (hfit : LinesFit f)
    (hjoined : ∀ data, prePasses cfg (Stream.ofBytes f) = .ok data → JoinedFit cfg data)
    (environ : Environ) (p q : Bytes) :
    let direct := runFiles .c (cfg.withAction action) environ [.readable p f]
    let first := runFiles .c (cfg.withAction .normalize) environ [.readable p f]
    let second := runFiles .c (.plain cfg.native action) environ [.readable q first.out.bytes]
    direct.out.bytes = second.out.bytes ∧
      direct.out.codes.filter (fun code => code != .noEquals && !code.isFileError) =
        second.out.codes := by
  intro direct first second
  have hfirst : first.out.bytes = (processFile .c (cfg.withAction .normalize) p
      (Stream.ofBytes f) (initialTable (cfg.withAction .normalize) environ)).2.bytes := by
    have hout : first.out = _ + 0 := runFiles_one .c (cfg.withAction .normalize) environ p f
    rw [hout, add_zero]
  have hsecond : second.out = _ :=
    runFiles_one .c (.plain cfg.native action) environ q first.out.bytes
  have hdirect : direct.out = _ := runFiles_one .c (cfg.withAction action) environ p f
  have htable : initialTable (.plain cfg.native action) environ =
      initialTable (cfg.withAction action) environ := rfl
  have hemitted : emitted (.plain cfg.native action) = emitted (cfg.withAction action) := rfl
  obtain ⟨hstate, hstdout, hcodes⟩ := processFile_stages hact hnul hfit hjoined p q
    (initialTable (cfg.withAction action) environ)
    (initialTable (cfg.withAction .normalize) environ)
  rw [← hfirst] at hstate hstdout hcodes
  rw [htable, hemitted, ← hstate] at hsecond
  refine ⟨?_, ?_⟩
  · have hbindings : direct.out.stdout = second.out.stdout := by
      rw [hdirect, hsecond, Out.add_stdout, Out.add_stdout, hstdout]
    rw [Out.bytes, Out.bytes, hbindings]
  · rw [hdirect, hsecond, Out.codes_add, Out.codes_add, emitted_codes, List.append_nil,
      List.append_nil]
    exact hcodes

/-- A file with a comment, a key that is no name, a CR and a continued line. -/
theorem normalize_first_joining :
    let cfg : Config := { Config.default with
      stripCr := true
      bom := .strip
      shellCont := true
      native_bom := nofun
      native_cont := nofun }
    let f := ascii "#a\r\nB=1\\\r\n2\r\n-=3\r\n"
    let direct := runFiles .c (cfg.withAction .delta) [] [.readable [] f]
    let first := runFiles .c (cfg.withAction .normalize) [] [.readable [] f]
    let second := runFiles .c (.plain cfg.native .delta) [] [.readable [] first.out.bytes]
    direct.out.bytes = second.out.bytes ∧
      direct.out.codes.filter (fun code => code != .noEquals && !code.isFileError) =
        second.out.codes := by
  intro cfg f
  refine normalize_first (by decide) rfl (by decide) ?_ [] [] []
  intro data hdata _
  have hf : data = f := (Except.ok.inj hdata).symm
  subst hf
  decide

end Both

end Envfile.C

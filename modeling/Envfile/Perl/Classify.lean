/-
# `Envfile.Perl.Classify` — what the Perl script makes of a line

The script tests a line as the Rust and Zig programs do, so that its records
are those of a `Port` (`validateLine_eq`).  It reads the line without its CR in
either format, where they do so in shell format only.
-/
import Envfile.Continuation
import Envfile.Perl.Program
import Envfile.Port.Classify

namespace Envfile.Perl

/-- The Perl script as a port: `\s` is its whitespace, a hash its table. -/
def port : Port EnvHash := ⟨isSpace, fun env => env.lookup, fun env k v => env.insert k v⟩

def outcome (native : Bool) (line : Bytes) : Outcome :=
  if Port.isSkipped isSpace line then .skipped
  else assignmentOutcome
    (if native then nativeAssignment else Port.shellAssignment isSpace) (trimCr line)

theorem outcome_eq_skipped {native : Bool} {line : Bytes} :
    outcome native line = .skipped ↔ Port.isSkipped isSpace line = true := by
  rw [outcome]
  cases Port.isSkipped isSpace line with
  | true => exact ⟨fun _ => rfl, fun _ => rfl⟩
  | false =>
      refine iff_of_false ?_ Bool.false_ne_true
      rw [if_neg Bool.false_ne_true, assignmentOutcome]
      split
      · rintro ⟨⟩
      cases native with
      | true => exact assignment_ne_skipped true _ _
      | false => exact Port.shellAssignment_ne_skipped _ _ _

/-! ## Substitution -/

section Subst

variable (env : EnvHash) (path : Bytes) (lineno : Nat)

/-- A round of the loop, piece by piece. -/
theorem substLoop_succ (rounds : Nat) (val : Bytes) :
    substLoop env path lineno (rounds + 1) val =
      substRound env.lookup path lineno (substLoop env path lineno rounds) val := by
  have hresolve : resolve env path lineno = resolveRef env.lookup path lineno := rfl
  have hindex : index val Byte.dollar = memchr val Byte.dollar := rfl
  rw [substLoop, substRound, hresolve, hindex]
  cases hdollar : memchr val Byte.dollar with
  | none => cases val <;> rfl
  | some dollar =>
      rw [if_pos (Nat.zero_lt_of_lt (memchr_lt hdollar))]
      show _ = dollarRound _ _ _ _ _ _
      simp only [dollarRound]
      cases val.drop (dollar + 1) with
      | nil => rfl
      | cons c s =>
          have hopen : ((c :: s).take 1 == [Byte.lbrace]) = (c == Byte.lbrace) := by
            rw [Bool.eq_iff_iff, beq_iff_eq, beq_iff_eq]
            simp
          rw [afterDollar, hopen, List.drop_succ_cons, List.drop_zero]
          by_cases hc : c = Byte.lbrace
          · rw [if_pos (beq_iff_eq.mpr hc), if_pos hc]
            have hclose : index s Byte.rbrace = memchr s Byte.rbrace := rfl
            rw [hclose]
            cases memchr s Byte.rbrace <;> rfl
          · have hany : (c :: s).head?.any isNameStart = isNameStart c := rfl
            rw [if_neg (fun e => hc (beq_iff_eq.mp e)), if_neg hc, hany]
            cases hname : isNameStart c with
            | false => rfl
            | true =>
                have hmatch : (c :: s).takeWhile isNameRest = c :: s.takeWhile isNameRest :=
                  List.takeWhile_cons_of_pos (isNameRest_of_start hname)
                simp only [hmatch, List.length_cons, List.drop_succ_cons, drop_length_takeWhile]
                rfl

theorem subst_eq (val : Bytes) :
    subst val path lineno env =
      ((Envfile.subst env.lookup val).1,
        Out.unbound path lineno (Envfile.subst env.lookup val).2) :=
  substRounds_eq _ path lineno (fun rounds val _ => substLoop_succ env path lineno rounds val) _ val
    List.suffix_rfl (Nat.lt_succ_self _)

end Subst

/-! ## Records -/

section Record

variable (cfg : Knobs) (path : Bytes) (lineno : Nat)

theorem unquote_eq (v : Bytes) : unquote v = Port.unquoteShellValue v := by
  cases v with
  | nil => rfl
  | cons c rest =>
      rw [unquote, Port.unquoteShellValue]
      split
      · have hfind : index rest c = rest.idxOf? c := rfl
        rw [hfind]
        cases hclose : rest.idxOf? c with
        | none => rfl
        | some pos =>
            have hlt : pos < rest.length := memchr_lt hclose
            have hend : (rest.drop (pos + 1)).length > 0 ↔ (pos + 1 != rest.length) = true := by
              rw [List.length_drop, bne_iff_ne]
              omega
            simp only [hend]
      · rfl

theorem doDump_eq (hact : cfg.action ≠ some .normalize) {raw : Bytes} {quoting : Quoting}
    (hraw : cfg.native = true ∨ ((raw.head? == some Byte.squote) = true ↔ quoting = .single))
    (k v : Bytes) :
    doDump cfg k raw v path lineno = port.accept cfg path lineno k v quoting := by
  have hquote : (cfg.native || raw.take 1 != [Byte.squote])
      = (cfg.native || quoting != .single) := by
    rcases hraw with hnative | hraw
    · rw [hnative, Bool.true_or, Bool.true_or]
    · have hhead : (raw.take 1 == [Byte.squote]) = (raw.head? == some Byte.squote) := by
        cases raw with
        | nil => rfl
        | cons c raw => rw [Bool.eq_iff_iff, beq_iff_eq, beq_iff_eq]; simp
      rw [bne, hhead]
      congr 2
      rw [Bool.eq_iff_iff, hraw, beq_iff_eq]
  have hsubst : subst v path lineno = port.substValue path lineno v := by
    funext env
    rw [subst_eq, Port.substValue_eq]
    rfl
  funext env
  rw [doDump, Port.accept]
  by_cases hdump : cfg.action = some .dump
  · rw [if_pos hdump, if_pos hdump]
    rfl
  · rw [if_neg hdump, if_neg hdump]
    simp only [doDelta, hquote, hsubst, hact, or_false]
    rfl

theorem splitEq_append {k : Bytes} (hk : Byte.equals ∉ k) (v : Bytes) :
    splitEq (k ++ Byte.equals :: v) = (k, v) := by
  have hfind : index (k ++ Byte.equals :: v) Byte.equals = some k.length := memchr_append hk v
  simp only [splitEq, hfind, take_before, drop_after]

theorem validateWork_native (hact : cfg.action ≠ some .normalize) (hnative : cfg.native = true)
    {k : Bytes} (hk : Byte.equals ∉ k) (v : Bytes) :
    Step.prepend Out.check (validateWork cfg path lineno (k ++ Byte.equals :: v)) =
      port.record cfg path lineno (nativeAssignment k v) := by
  have hcontains : (k ++ Byte.equals :: v).contains Byte.equals = true := by simp
  rw [validateWork, hcontains, splitEq_append hk, hnative, nativeAssignment]
  simp only [Bool.not_true, Bool.false_eq_true, if_false, if_true, beq_iff_eq]
  by_cases hnil : k = []
  · rw [if_pos hnil, if_pos hnil]
    rfl
  · have hdump : doDump cfg k v v path lineno = port.accept cfg path lineno k v .plain :=
      doDump_eq cfg path lineno hact (Or.inl hnative) k v
    rw [if_neg hnil, if_neg hnil, hdump]
    rfl

theorem validateWork_shell (hact : cfg.action ≠ some .normalize) (hnative : cfg.native = false)
    {k : Bytes} (hk : Byte.equals ∉ k) (v : Bytes) :
    Step.prepend Out.check (validateWork cfg path lineno (k ++ Byte.equals :: v)) =
      port.record cfg path lineno (Port.shellAssignment isSpace k v) := by
  have hcontains : (k ++ Byte.equals :: v).contains Byte.equals = true := by simp
  rw [validateWork, hcontains, splitEq_append hk, hnative, Port.shellAssignment]
  simp only [Bool.not_true, Bool.false_eq_true, if_false, beq_iff_eq]
  cases k.head?.any isSpace with
  | true => rfl
  | false =>
      cases k.getLast?.any isSpace with
      | true => rfl
      | false =>
          cases v.head?.any isSpace with
          | true => rfl
          | false =>
              simp only [Bool.false_eq_true, if_false]
              by_cases hnil : k = []
              · rw [if_pos hnil, if_pos hnil]
                rfl
              rw [if_neg hnil, if_neg hnil, validShellKey]
              cases isName k with
              | false => rfl
              | true =>
                  rw [unquote_eq, Port.unquoteShellValue_eq]
                  cases hu : Envfile.unquote v with
                  | error code => rfl
                  | ok p =>
                      have hdump := doDump_eq cfg path lineno hact (Or.inr (squote_iff hu)) k p.1
                      show Step.prepend _ (doDump cfg k v p.1 path lineno) = _
                      rw [hdump]
                      rfl

theorem validateWork_eq (hact : cfg.action ≠ some .normalize) (work : Bytes) :
    Step.prepend Out.check (validateWork cfg path lineno work) =
      port.record cfg path lineno
        (assignmentOutcome
          (if cfg.native then nativeAssignment else Port.shellAssignment isSpace) work) := by
  rw [assignmentOutcome]
  rcases line_shape work with ⟨hno, hsplit⟩ | ⟨k, v, rfl, hk, hsplit⟩
  · have hcontains : work.contains Byte.equals = false := by
      rw [Bool.eq_false_iff, ne_eq, List.contains_iff_mem]
      exact hno
    rw [validateWork, hcontains, hsplit]
    rfl
  · rw [hsplit]
    cases hnative : cfg.native with
    | true => exact validateWork_native cfg path lineno hact hnative hk v
    | false => exact validateWork_shell cfg path lineno hact hnative hk v

theorem validateLine_eq (hact : cfg.action ≠ some .normalize) (line : Bytes) :
    validateLine cfg path lineno line =
      Step.prepend (Out.hand line lineno)
        (port.record cfg path lineno (outcome cfg.native line)) := by
  rw [validateLine, outcome, Port.isSkipped]
  congr 1
  cases (trimCr line).all isSpace with
  | true => rfl
  | false =>
      cases (trimCr line).head? == some Byte.hash with
      | true => rfl
      | false =>
          have hprint : (line.contains Byte.equals && decide (cfg.action = some .normalize)) =
              false := by
            rw [decide_eq_false hact, Bool.and_false]
          simp only [hprint, Bool.or_false, Bool.false_eq_true, if_false]
          exact validateWork_eq cfg path lineno hact (trimCr line)

theorem validateLine_normalize (hact : cfg.action = some .normalize) (line : Bytes) :
    validateLine cfg path lineno line =
      Step.prepend (Out.hand line lineno)
        (if Port.isSkipped isSpace line then Step.skip
        else Step.emit (Out.check + Port.printed path lineno line)) := by
  rw [validateLine, Port.isSkipped]
  congr 1
  cases (trimCr line).all isSpace with
  | true => rfl
  | false =>
      cases (trimCr line).head? == some Byte.hash with
      | true => rfl
      | false =>
          simp only [Bool.or_false, Bool.false_eq_true, if_false, hact, decide_true, Bool.and_true]
          rw [Port.printed]
          rcases line_shape line with ⟨hno, hsplit⟩ | ⟨k, raw, rfl, hk, hsplit⟩
          · -- without an `=` the line is rejected for that
            have hcontains : ∀ s : Bytes, Byte.equals ∉ s → s.contains Byte.equals = false := by
              intro s hs
              rw [Bool.eq_false_iff, ne_eq, List.contains_iff_mem]
              exact hs
            rw [hcontains line hno, validateWork,
              hcontains (trimCr line) fun h => hno (trimCr_subset line h), hsplit]
            rfl
          · have hcontains : (k ++ Byte.equals :: raw).contains Byte.equals = true := by simp
            rw [hcontains, hsplit, splitEq_append hk]
            rfl

theorem validateLine_checked (line : Bytes) (env : EnvHash) :
    (validateLine cfg path lineno line env).2.checked =
      if Port.isSkipped isSpace line then 0 else 1 := by
  by_cases hact : cfg.action = some .normalize
  · rw [validateLine_normalize cfg path lineno hact, Step.prepend_snd, Out.add_checked,
      Out.hand_checked, zero_add]
    cases Port.isSkipped isSpace line with
    | true => rfl
    | false =>
        show (Out.check + Port.printed path lineno line : Out Nat).checked = 1
        rw [Out.add_checked, Port.printed_checked]
        rfl
  · rw [validateLine_eq cfg path lineno hact, Step.prepend_snd, Out.add_checked, Out.hand_checked,
      zero_add, Port.record_checked]
    simp only [outcome_eq_skipped]

/-! ## What a line writes -/

theorem recordStep_doDump (k raw value : Bytes) :
    Out.RecordStep (doDump cfg k raw value path lineno) := by
  rw [doDump]
  refine .ite (.emit (.print _ _)) ?_
  intro env
  rw [doDelta]
  split
  · exact .zero
  · refine .add ?_ (.ite (.print _ _) .zero)
    split
    · rw [subst_eq]
      exact .unbound _ _ _
    · exact .zero

theorem isRecordCode_of_unquote {v : Bytes} {code : Code} (h : unquote v = .error code) :
    code.isRecordCode = true := by
  unfold unquote at h
  split at h
  · cases h
  split at h
  · split at h
    · cases h
      split <;> rfl
    · split at h <;> cases h
      rfl
  · split at h <;> cases h
    rfl

theorem recordStep_validateWork (work : Bytes) :
    Out.RecordStep (validateWork cfg path lineno work) := by
  rw [validateWork]
  refine .ite (.emit (.diag rfl)) ?_
  refine .ite (.ite (.emit (.diag rfl)) (recordStep_doDump cfg path lineno _ _ _)) ?_
  refine .ite (.emit (.diag rfl)) (.ite (.emit (.diag rfl)) (.ite (.emit (.diag rfl)) ?_))
  refine .ite (.emit (.diag rfl)) (.ite (.emit (.diag rfl)) ?_)
  cases hvalue : unquote (splitEq work).2 with
  | error code => exact .emit (.diag (isRecordCode_of_unquote hvalue))
  | ok value => exact recordStep_doDump cfg path lineno _ _ _

theorem isBody_validateLine :
    Out.IsBody fun p : Bytes × Nat => validateLine cfg path p.2 p.1 := by
  rintro ⟨line, lineno⟩ env
  refine ⟨_, rfl, ?_⟩
  have hrecord : Out.RecordStep (if (trimCr line).all isSpace then Step.skip
      else if (trimCr line).head? == some Byte.hash then Step.skip
      else Step.prepend Out.check
        (if line.contains Byte.equals && decide (cfg.action = some .normalize) then
          Step.emit (Out.print (splitEq line).1 (splitEq line).2)
        else validateWork cfg path lineno (trimCr line))) :=
    .ite .skip (.ite .skip (.prepend .check (.ite (.emit (.print _ _))
      (recordStep_validateWork cfg path lineno _))))
  exact hrecord env

end Record

/-! ## Lines -/

theorem splitLines_eq (buf : Bytes) : splitLines buf = Lines.lines Byte.nl buf := by
  cases buf with
  | nil => rfl
  | cons c buf =>
      have hlen : ((c :: buf).length == 0) = false := rfl
      simp only [splitLines, hlen, Bool.false_eq_true, if_false]
      rw [Lines.splitOn_eq, Lines.lines, List.getLast?_concat, List.dropLast_concat]
      cases Lines.rest Byte.nl (c :: buf) with
      | nil => exact (List.append_nil _).symm
      | cons d r => rfl

theorem numberLines_eq (n : Nat) (lines : List Bytes) :
    numberLines n lines = Lines.number n lines := by
  induction lines generalizing n with
  | nil => rfl
  | cons l lines ih => rw [numberLines, Lines.number, ih]

theorem joinLoop_some {hold : Bytes} {lines : List Bytes} (h : lines ≠ []) :
    joinLoop (some hold) lines = joinLoop none
      (match lines with
      | [] => []
      | l :: lines => (hold.dropLast ++ l) :: lines) := by
  cases lines with
  | nil => exact absurd rfl h
  | cons l lines => rw [joinLoop, List.dropLast_eq_take]; rfl

theorem joinLoop_eq (acc : Bytes) (n : Nat) (l : Bytes) (lines : List Bytes) :
    joinLoop none ((acc ++ l) :: lines) = (joinFrom acc n (l :: lines)).map Prod.fst := by
  induction lines generalizing acc n l with
  | nil =>
      rw [joinLoop, joinFrom]
      cases isContinuation (acc ++ l) <;> rfl
  | cons m lines ih =>
      have hcont : isContinuation (acc ++ l) = continues (acc ++ l) := rfl
      rw [joinLoop, joinFrom, hcont, gathered]
      cases continues (acc ++ l) with
      | true =>
          simp only [if_true, joinLoop_some (List.cons_ne_nil m lines), List.nil_append]
          exact ih _ _ _
      | false =>
          simp only [Bool.false_eq_true, if_false, List.map_append, List.map_cons, List.map_nil]
          exact congrArg (_ :: ·) (ih [] _ m)

theorem logicalLines_eq (cfg : Knobs) (lines : List Bytes) :
    logicalLines cfg lines =
      if cfg.contAccept then (joinFrom [] 0 lines).map Prod.fst else lines := by
  rw [logicalLines]
  congr 1
  cases lines with
  | nil => rfl
  | cons l lines => exact joinLoop_eq [] 0 l lines

end Envfile.Perl

/-
# `Envfile.Sh.Join` — the lines that the shell script validates

The script writes the joined lines into a file and numbers the lines of that
file, so the number of a record counts logical lines.
-/
import Envfile.Continuation
import Envfile.Perl.Classify
import Envfile.Sh.Program

namespace Envfile.Sh

/-! ## Trailing backslashes -/

theorem stripBackslash_concat (s : Bytes) : stripBackslash (s ++ [Byte.backslash]) = s := by
  rw [stripBackslash, List.getLast?_concat, if_pos (beq_self_eq_true _), List.dropLast_concat]

theorem stripBackslash_of_continues {s : Bytes} (h : continues s = true) :
    stripBackslash s = s.dropLast := by
  obtain ⟨t, rfl⟩ := eq_concat_of_continues h
  rw [stripBackslash_concat, List.dropLast_concat]

theorem countBackslashes_eq (s : Bytes) : countBackslashes s.length s = trailing s := by
  induction s using List.reverseRecOn with
  | nil => rfl
  | append_singleton s c ih =>
      rw [List.length_append, List.length_singleton, countBackslashes, List.getLast?_concat]
      by_cases hc : c = Byte.backslash
      · rw [hc, if_pos (beq_self_eq_true _), stripBackslash_concat, ih, trailing_concat_backslash,
          Nat.add_comm]
      · rw [if_neg (by simpa using hc), trailing_concat_of_ne s hc]

/-! ## The lines of a file -/

theorem loop_eq (rounds : Nat) (input : Bytes) (h : input.length < rounds) :
    loop rounds input = Lines.lines Byte.nl input := by
  induction rounds generalizing input with
  | zero => exact absurd h (Nat.not_lt_zero _)
  | succ rounds ih =>
      rw [loop, read]
      rcases split_first Byte.nl input with hno | ⟨line, rest, rfl, hline⟩
      · have hfind : input.idxOf? Byte.nl = none := memchr_eq_none.mpr hno
        simp only [hfind]
        cases input with
        | nil => rfl
        | cons c input =>
            rw [Lines.lines_of_not_mem Byte.nl hno (List.cons_ne_nil c input)]
            cases rounds <;> rfl
      · have hfind : (line ++ Byte.nl :: rest).idxOf? Byte.nl = some line.length :=
          memchr_append hline rest
        rw [List.length_append, List.length_cons] at h
        simp only [hfind, take_before, drop_after, Bool.true_or, if_true]
        rw [ih rest (by omega), Lines.lines_line Byte.nl hline]

theorem readLines_eq (input : Bytes) : readLines input = Lines.lines Byte.nl input :=
  loop_eq _ input (Nat.lt_succ_self _)

theorem not_mem_of_mem_readLines {input line : Bytes} (h : line ∈ readLines input) :
    Byte.nl ∉ line := by
  rw [readLines_eq] at h
  exact Lines.sep_not_mem_lines Byte.nl h

theorem readLines_printed {lines : List Bytes} (h : ∀ l ∈ lines, Byte.nl ∉ l) :
    readLines ((lines.map printLine).flatten) = lines := by
  rw [readLines_eq]
  exact Lines.lines_unlines Byte.nl h

/-! ## The join -/

theorem joinLoop_eq : ∀ (ls : List Bytes) (hold : Bytes) (n : Nat), ls ≠ [] →
    joinLoop hold ls = (joinFrom (stripBackslash hold) n ls).map Prod.fst
  | [], _, _, h => absurd rfl h
  | l :: ls, hold, n, _ => by
      have hline : (if hold.isEmpty then l else stripBackslash hold ++ l) =
          stripBackslash hold ++ l := by
        cases hold with
        | nil => rfl
        | cons c hold => rfl
      rw [joinLoop]
      simp only [hline, countBackslashes_eq]
      show (if continues (stripBackslash hold ++ l) = true then _ else _) = _
      cases ls with
      | nil =>
          rw [joinFrom, joinLoop, joinLoop]
          cases hcont : continues (stripBackslash hold ++ l) with
          | true =>
              obtain ⟨t, ht⟩ := eq_concat_of_continues hcont
              rw [if_pos rfl, if_neg (by rw [ht]; simp)]
              rfl
          | false => rfl
      | cons m ls =>
          rw [joinFrom, gathered]
          cases hcont : continues (stripBackslash hold ++ l) with
          | true =>
              rw [if_pos rfl, if_pos rfl, if_pos rfl,
                joinLoop_eq (m :: ls) _ (n + 1) (List.cons_ne_nil m ls),
                stripBackslash_of_continues hcont]
              rfl
          | false =>
              rw [if_neg Bool.false_ne_true, if_neg Bool.false_ne_true,
                if_neg Bool.false_ne_true, joinLoop_eq (m :: ls) _ (n + 1) (List.cons_ne_nil m ls)]
              rfl

theorem joinLoop_nil (ls : List Bytes) : joinLoop [] ls = (joinFrom [] 0 ls).map Prod.fst := by
  cases ls with
  | nil => rfl
  | cons l ls => exact joinLoop_eq (l :: ls) [] 0 (List.cons_ne_nil l ls)

theorem readLines_joinContinuations (input : Bytes) :
    readLines (joinContinuations input) = (joinFrom [] 0 (readLines input)).map Prod.fst := by
  rw [joinContinuations, joinLoop_nil, readLines_printed]
  intro l hl hnl
  obtain ⟨q, hq, rfl⟩ := List.mem_map.mp hl
  rcases mem_joinFrom hq hnl with h | ⟨m, hm, h⟩
  · exact absurd h List.not_mem_nil
  · exact not_mem_of_mem_readLines hm h

/-! ## What a line writes -/

section Line

variable (path : Bytes) (lineno : Nat)

theorem fromRecord_resolve (store name : Bytes) :
    Out.FromRecord (resolve store path lineno name).2 := by
  rw [resolve]
  split
  · exact .zero
  · exact .diag rfl

theorem fromRecord_substLoop (store : Bytes) (rounds : Nat) (val : Bytes) :
    Out.FromRecord (substLoop store path lineno rounds val).2 := by
  induction rounds generalizing val with
  | zero => exact .zero
  | succ rounds ih =>
      rw [substLoop]
      split
      · exact .zero
      · dsimp only
        split
        · split
          · exact .zero
          · exact .add (fromRecord_resolve path lineno store _) (ih _)
        split
        · exact .add (fromRecord_resolve path lineno store _) (ih _)
        · exact ih _

variable (cfg : Knobs)

theorem recordStep_accept (k raw value : Bytes) :
    Out.RecordStep (accept cfg k raw value path lineno) := by
  rw [accept]
  refine .prepend (.ite (.print _ _) .zero) ?_
  intro store
  rw [doDelta]
  split
  · exact .zero
  · refine .add ?_ (.ite (.print _ _) .zero)
    split
    · exact fromRecord_substLoop path lineno store _ _
    · exact .zero

theorem unquote_eq (v : Bytes) : unquote v = Perl.unquote v := by
  cases v <;> rfl

theorem recordStep_validateWork (rawV work : Bytes) :
    Out.RecordStep (validateWork cfg path lineno rawV work) := by
  rw [validateWork]
  refine .ite (.emit (.diag rfl)) ?_
  refine .ite (.ite (.emit (.diag rfl)) (recordStep_accept path lineno cfg _ _ _)) ?_
  refine .ite (.emit (.diag rfl)) (.ite (.emit (.diag rfl)) (.ite (.emit (.diag rfl)) ?_))
  refine .ite (.emit (.diag rfl)) (.ite (.emit (.diag rfl)) ?_)
  cases hvalue : unquote (afterEquals work) with
  | error code => exact .emit (.diag (Perl.isRecordCode_of_unquote (unquote_eq _ ▸ hvalue)))
  | ok value => exact recordStep_accept path lineno cfg _ _ _

theorem isBody_validateLine :
    Out.IsBody fun p : Bytes × Nat => validateLine cfg path p.2 p.1 := by
  rintro ⟨line, lineno⟩ store
  refine ⟨_, rfl, ?_⟩
  have hrecord : Out.RecordStep (if (trimCr line).all isBlank then Step.skip
      else if (trimCr line).head? == some Byte.hash then Step.skip
      else Step.prepend Out.check
        (if !hasEquals line then Step.emit (diag path lineno .noEquals)
        else if cfg.action = some .normalize then
          Step.emit (Out.print (beforeEquals line) (afterEquals line))
        else
          validateWork cfg path lineno (afterEquals line)
            (if cfg.native then line else trimCr line))) :=
    .ite .skip (.ite .skip (.prepend .check (.ite (.emit (.diag rfl))
      (.ite (.emit (.print _ _)) (recordStep_validateWork path lineno cfg _ _)))))
  exact hrecord store

theorem numberLines_eq (n : Nat) (lines : List Bytes) :
    numberLines n lines = Lines.number n lines := by
  induction lines generalizing n with
  | nil => rfl
  | cons l lines ih => rw [numberLines, Lines.number, ih]

end Line

end Envfile.Sh

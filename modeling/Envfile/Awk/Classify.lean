/-
# `Envfile.Awk.Classify` — what the reference makes of a line

`validate` counts, reports and dispatches in one go.  `validate_eq` takes it
apart: the meaning of the line (`Envfile.reference`), and then `record`, which
counts, reports the code of a rejected line, and hands an accepted key and
value to the action.

The string that `unquote` returns after an error is one that an accepted value
can equal.  `accept` has it as the reference does: such a record is counted,
and nothing else is done with it.
-/
import Envfile.Awk.Reference
import Envfile.Record
import Envfile.Substitution

namespace Envfile.Awk

/-! ## Positions -/

section Positions

variable {c : UInt8} {u v s : Bytes}

theorem index_singleton (s : Bytes) (c : UInt8) :
    index s [c] = match memchr s c with
      | none => 0
      | some i => i + 1 := by
  have hfind : ∀ s : Bytes, s.tails.findIdx? ([c].isPrefixOf ·) = memchr s c := by
    intro s
    induction s with
    | nil => rfl
    | cons a s ih =>
        rw [List.tails, List.findIdx?_cons, ih, memchr, memchr, List.idxOf?_cons]
        have hhead : [c].isPrefixOf (a :: s) = (a == c) := by
          simp [List.isPrefixOf, Bool.beq_comm]
        rw [hhead]
  cases hfound : memchr s c with
  | none => rw [index, hfind, hfound]
  | some i => rw [index, hfind, hfound]

theorem index_eq_zero (h : c ∉ s) : index s [c] = 0 := by
  rw [index_singleton, memchr_eq_none.mpr h]

theorem index_append (h : c ∉ u) (v : Bytes) : index (u ++ c :: v) [c] = u.length + 1 := by
  rw [index_singleton, memchr_append h]

theorem substr_one (s : Bytes) (n : Nat) : substr s 1 n = s.take n := rfl

theorem substr_head (s : Bytes) (c : UInt8) : (substr s 1 1 == [c]) = (s.head? == some c) := by
  rw [substr_one]
  cases s with
  | nil => rfl
  | cons a s => simp

theorem substr_before (u v : Bytes) (c : UInt8) :
    substr (u ++ c :: v) 1 (u.length + 1 - 1) = u := by
  rw [substr_one, Nat.add_sub_cancel, List.take_left]

theorem substrFrom_after (u v : Bytes) (c : UInt8) :
    substrFrom (u ++ c :: v) (u.length + 1 + 1) = v := by
  show (u ++ c :: v).drop (u.length + 1) = v
  rw [← List.drop_drop, List.drop_left]
  rfl

end Positions

/-! ## Substitution -/

section Subst

variable (env : EnvArray) (path : Bytes) (lineno : Nat)

theorem matchName_cons (c : UInt8) (s : Bytes) :
    matchName (c :: s) = if isNameStart c then (s.takeWhile isNameRest).length + 1 else 0 := by
  rw [matchName, Nat.add_comm]

/-- A round of the loop, piece by piece. -/
theorem substLoop_succ (rounds : Nat) (val : Bytes) :
    substLoop env path lineno (rounds + 1) val =
      substRound env.lookup path lineno (substLoop env path lineno rounds) val := by
  have hlookup : lookup env path lineno = resolveRef env.lookup path lineno := rfl
  rw [substLoop, substRound, hlookup, index_singleton]
  cases hdollar : memchr val Byte.dollar with
  | none => cases val <;> rfl
  | some dollar =>
      have hbefore : substr val 1 (dollar + 1 - 1) = val.take dollar := rfl
      have hrest : substrFrom val (dollar + 1 + 1) = val.drop (dollar + 1) := rfl
      rw [if_pos (Nat.zero_lt_of_lt (memchr_lt hdollar))]
      show _ = dollarRound _ _ _ _ _ _
      simp only [dollarRound, Nat.succ_ne_zero, if_false, hbefore, hrest]
      cases val.drop (dollar + 1) with
      | nil => rfl
      | cons c s =>
          rw [substr_head, matchName_cons, afterDollar]
          by_cases hc : c = Byte.lbrace
          · rw [if_pos (by simpa using hc), if_pos hc]
            have htail : substrFrom (c :: s) 2 = s := rfl
            rw [htail, index_singleton]
            cases memchr s Byte.rbrace <;> rfl
          · rw [if_neg (by simpa using hc), if_neg hc]
            cases hname : isNameStart c with
            | false => rfl
            | true =>
                have hkey : substr (c :: s) 1 ((s.takeWhile isNameRest).length + 1) =
                    c :: s.takeWhile isNameRest := by
                  rw [substr_one, List.take_succ_cons, take_length_takeWhile]
                have hafter : substrFrom (c :: s) ((s.takeWhile isNameRest).length + 1 + 1) =
                    s.dropWhile isNameRest := drop_length_takeWhile _ _
                simp only [if_true, hkey, hafter]
                rw [if_neg (by omega)]

theorem subst_eq (val : Bytes) :
    subst val path lineno env =
      ((Envfile.subst env.lookup val).1,
        Out.unbound path lineno (Envfile.subst env.lookup val).2) :=
  substRounds_eq _ path lineno (fun rounds val _ => substLoop_succ env path lineno rounds val) _ val
    List.suffix_rfl (Nat.lt_succ_self _)

end Subst

/-! ## Records -/

section Record

variable (cfg : Knobs) (path : Bytes) (lineno : Nat)

/-- An accepted record, with its value unquoted. -/
def accept (k v : Bytes) (quoting : Quoting) : Step EnvArray (Out Nat) := fun env =>
  if v == sentinel then (env, 0)
  else if cfg.action = some .dump then (env, Out.print k v)
  else if cfg.action = some .validate then (env, 0)
  else
    let value := if cfg.native || quoting != .single then subst v path lineno env else (v, 0)
    (env.insert k value.1,
      value.2 + if cfg.action = some .delta then Out.print k value.1 else 0)

/-- A line, by what it means. -/
def record : Outcome → Step EnvArray (Out Nat)
  | .skipped => Step.skip
  | .rejected code => Step.emit (Out.check + diag code path lineno)
  | .accepted k v quoting => Step.prepend Out.check (accept cfg path lineno k v quoting)

variable {cfg path lineno}

theorem dump_eq {raw v : Bytes} {quoting : Quoting}
    (hraw : cfg.native = true ∨ ((raw.head? == some Byte.squote) = true ↔ quoting = .single))
    (k : Bytes) : dump cfg path lineno k raw v = accept cfg path lineno k v quoting := by
  have hquote : (cfg.native || substr raw 1 1 != [Byte.squote])
      = (cfg.native || quoting != .single) := by
    rcases hraw with hnative | hraw
    · rw [hnative, Bool.true_or, Bool.true_or]
    · congr 1
      rw [bne, substr_head, bne]
      congr 1
      rw [Bool.eq_iff_iff, hraw, beq_iff_eq]
  funext env
  simp only [dump, accept, delta, hquote]

theorem accept_diags (k v : Bytes) (quoting : Quoting) (env : EnvArray) :
    ∀ d ∈ (accept cfg path lineno k v quoting env).2.diags, d.code = .unboundRef := by
  intro d hd
  rw [accept] at hd
  split at hd
  · exact absurd hd List.not_mem_nil
  split at hd
  · exact absurd hd List.not_mem_nil
  split at hd
  · exact absurd hd List.not_mem_nil
  rw [Out.add_diags, List.mem_append] at hd
  rcases hd with hd | hd
  · split at hd
    · rw [subst_eq, Out.unbound_eq] at hd
      obtain ⟨name, -, rfl⟩ := List.mem_map.mp hd
      rfl
    · exact absurd hd List.not_mem_nil
  · split at hd
    · exact absurd hd List.not_mem_nil
    · exact absurd hd List.not_mem_nil

/-- Apart from unbound references, the code of the outcome is all that is
reported. -/
theorem record_codes (o : Outcome) (env : EnvArray) :
    (record cfg path lineno o env).2.codes.filter (· != .unboundRef) =
      o.codes.filter (· != .unboundRef) := by
  cases o with
  | skipped => rfl
  | rejected code => rfl
  | accepted k v quoting =>
      refine List.filter_eq_nil_iff.mpr ?_
      intro code hcode
      obtain ⟨d, hd, rfl⟩ := List.mem_map.mp hcode
      rw [accept_diags k v quoting env d hd]
      decide

theorem record_dump (hdump : cfg.action = some .dump) (o : Outcome) (env : EnvArray) :
    record cfg path lineno o env =
      (env, ⟨o.bindings.filter fun b => b.2 != sentinel,
        o.codes.map fun code => ⟨code, none, path, some lineno⟩,
        if o = .skipped then 0 else 1, o.codes.length, []⟩) := by
  cases o with
  | skipped => rfl
  | rejected code => rfl
  | accepted k v quoting =>
      rw [record, Step.prepend, accept, Outcome.bindings, List.filter_cons]
      cases hv : v == sentinel with
      | true =>
          have hne : (v != sentinel) = false := by rw [bne, hv]; rfl
          rw [if_pos rfl, hne]
          rfl
      | false =>
          have hne : (v != sentinel) = true := by rw [bne, hv]; rfl
          rw [if_neg Bool.false_ne_true, if_pos hdump, hne]
          rfl

theorem unquote_cons (q : UInt8) (rest : Bytes) :
    unquote path lineno (q :: rest) =
      if q = Byte.dquote ∨ q = Byte.squote then
        if index rest [q] = 0 then (sentinel, diag (unterminated q) path lineno)
        else if index rest [q] < rest.length then (sentinel, diag .trailingContent path lineno)
        else (substr rest 1 (index rest [q] - 1), 0)
      else if (q :: rest).any Envfile.isBadUnquoted then
        (sentinel, diag .valueInvalidChar path lineno)
      else (q :: rest, 0) := by
  have hchar : substr (q :: rest) 1 1 = [q] := rfl
  have hrest : substrFrom (q :: rest) 2 = rest := rfl
  have hquote : (([q] : Bytes) == [Byte.dquote] || ([q] : Bytes) == [Byte.squote]) = true ↔
      q = Byte.dquote ∨ q = Byte.squote := by simp
  have hdquote : (([q] : Bytes) == [Byte.dquote]) = true ↔ q = Byte.dquote := by simp
  rw [unquote, if_neg (by simp)]
  simp only [hchar, hrest, hquote, hdquote]
  rfl

/-- `unquote` returns the value, or the sentinel and the diagnostic. -/
theorem unquote_eq (v : Bytes) :
    unquote path lineno v =
      match Envfile.unquote v with
      | .error code => (sentinel, diag code path lineno)
      | .ok (w, _) => (w, 0) := by
  rcases value_shape v with ⟨hd, hs⟩ | ⟨q, rest, rfl, hq, hr⟩ | ⟨q, inner, after, rfl, hq, hi⟩
  · rw [unquote_plain hd hs]
    cases v with
    | nil => rfl
    | cons c v =>
        have hc : ¬ (c = Byte.dquote ∨ c = Byte.squote) := by
          rintro (rfl | rfl)
          · exact hd rfl
          · exact hs rfl
        rw [unquote_cons, if_neg hc]
        split <;> rfl
  · rw [unquote_cons, if_pos hq, index_eq_zero hr, if_pos rfl, unquote_open hq hr]
  · have hlen : (inner ++ q :: after).length = inner.length + 1 + after.length := by
      rw [List.length_append, List.length_cons]
      omega
    rw [unquote_cons, if_pos hq, index_append hi, if_neg (Nat.succ_ne_zero _), hlen,
      unquote_quoted hq hi]
    cases after with
    | nil => rw [if_neg (by simp), if_pos rfl, substr_before]
    | cons a after => rw [if_pos (by simp), if_neg (List.cons_ne_nil _ _)]

/-! ## Lines -/

theorem startsBlank_eq (s : Bytes) : startsBlank s = Envfile.startsBlank s := rfl

theorem endsBlank_eq (s : Bytes) : endsBlank s = Envfile.endsBlank s := rfl

theorem validateRecord_shell (hshell : cfg.native = false) (hact : cfg.action ≠ some .normalize)
    {k : Bytes} (hk : Byte.equals ∉ k) (v : Bytes) (env : EnvArray) :
    Step.prepend Out.check (validateRecord cfg path lineno (k ++ Byte.equals :: v)) env =
      record cfg path lineno (shellAssignment k v) env := by
  have hkey : substr (k ++ Byte.equals :: v) 1 (k.length + 1 - 1) = k := substr_before k v _
  have hvalue : substrFrom (k ++ Byte.equals :: v) (k.length + 1 + 1) = v := substrFrom_after k v _
  simp only [validateRecord, index_append hk, hkey, hvalue, hshell, Bool.false_eq_true, if_false,
    Nat.succ_ne_zero, hact, beq_iff_eq]
  rw [shellAssignment, keyFault]
  by_cases hnil : k = []
  · rw [if_pos hnil, if_pos hnil]
    rfl
  rw [if_neg hnil, if_neg hnil, startsBlank_eq, endsBlank_eq, startsBlank_eq]
  cases Envfile.startsBlank k with
  | true => rfl
  | false =>
      cases Envfile.endsBlank k with
      | true => rfl
      | false =>
          cases Envfile.startsBlank v with
          | true => rfl
          | false =>
              cases isName k with
              | false => rfl
              | true =>
                  show Step.prepend Out.check (Step.prepend (unquote path lineno v).2
                    (dump cfg path lineno k v (unquote path lineno v).1)) env = _
                  rw [unquote_eq]
                  cases hu : Envfile.unquote v with
                  | error code =>
                      show (env, Out.check + (diag code path lineno + 0)) = _
                      rw [add_zero]
                      rfl
                  | ok p =>
                      show (_, Out.check + (0 + _)) = _
                      rw [zero_add, dump_eq (Or.inr (squote_iff hu))]
                      rfl

theorem validateRecord_native (hnative : cfg.native = true)
    (hact : cfg.action ≠ some .normalize) {k : Bytes} (hk : Byte.equals ∉ k) (v : Bytes)
    (env : EnvArray) :
    Step.prepend Out.check (validateRecord cfg path lineno (k ++ Byte.equals :: v)) env =
      record cfg path lineno (nativeAssignment k v) env := by
  have hkey : substr (k ++ Byte.equals :: v) 1 (k.length + 1 - 1) = k := substr_before k v _
  have hvalue : substrFrom (k ++ Byte.equals :: v) (k.length + 1 + 1) = v := substrFrom_after k v _
  simp only [validateRecord, index_append hk, hkey, hvalue, hnative, if_true, Nat.succ_ne_zero,
    if_false, hact, beq_iff_eq]
  rw [nativeAssignment]
  by_cases hnil : k = []
  · rw [if_pos hnil, if_pos hnil]
    rfl
  · rw [if_neg hnil, if_neg hnil]
    show (_, Out.check + _) = _
    rw [dump_eq (Or.inl hnative)]
    rfl

theorem validateRecord_noEquals {line : Bytes} (h : Byte.equals ∉ line) :
    validateRecord cfg path lineno line = Step.emit (diag .noEquals path lineno) := by
  simp only [validateRecord, index_eq_zero h, if_true]
  split <;> rfl

theorem skipped_eq (line : Bytes) :
    ((trimCr line).all isBlank || [Byte.hash].isPrefixOf (trimCr line)) = isSkipped line := by
  have hhash : [Byte.hash].isPrefixOf (trimCr line) = ((trimCr line).head? == some Byte.hash) := by
    cases trimCr line with
    | nil => rfl
    | cons c t => simp [List.isPrefixOf, Bool.beq_comm]
  rw [hhash, isSkipped_trimCr]

theorem validate_eq (hact : cfg.action ≠ some .normalize) (line : Bytes) :
    validate cfg path lineno line =
      Step.prepend (Out.hand line lineno)
        (record cfg path lineno (reference cfg.native line)) := by
  rw [validate, reference_eq]
  show Step.prepend _ (if ((trimCr line).all isBlank || _) = true then _ else _) = _
  rw [skipped_eq]
  cases isSkipped line with
  | true => rfl
  | false =>
      rw [if_neg Bool.false_ne_true, if_neg Bool.false_ne_true]
      congr 1
      funext env
      rcases line_shape line with ⟨hno, hsplit⟩ | ⟨k, v, rfl, hk, hsplit⟩
      · rw [validateRecord_noEquals hno, assignmentOutcome, hsplit]
        rfl
      · rw [assignmentOutcome, hsplit]
        cases hnative : cfg.native with
        | true => exact validateRecord_native hnative hact hk v env
        | false => exact validateRecord_shell hnative hact hk v env

end Record

end Envfile.Awk

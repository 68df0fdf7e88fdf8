/-
# `Envfile.Port.Classify` — what the record loop of the ports makes of a line

`outcome` says on byte strings what the shared loop says with indices
(`processLine_eq`).  It differs from the reference in three places: the bytes
that count as whitespace are the port's own; in shell format the CR that may
end a line is no part of the value; and the key is only found to be empty
after the value has been looked at.
-/
import Envfile.Port.Program
import Envfile.Record
import Envfile.Substitution

namespace Envfile.Port

/-! ## Outcomes -/

/-- The assignment `k=v` in shell format, in the order of the ports. -/
def shellAssignment (isWhitespace : UInt8 → Bool) (k v : Bytes) : Outcome :=
  if k.head?.any isWhitespace then .rejected .keyLeadingWhitespace
  else if k.getLast?.any isWhitespace then .rejected .keyTrailingWhitespace
  else if v.head?.any isWhitespace then .rejected .valueLeadingWhitespace
  else if k = [] then .rejected .emptyKey
  else if !isName k then .rejected .keyInvalid
  else .ofValue k (unquote v)

/-- A line the ports pass over. -/
def isSkipped (isWhitespace : UInt8 → Bool) (line : Bytes) : Bool :=
  (trimCr line).all isWhitespace || (trimCr line).head? == some Byte.hash

def outcome (isWhitespace : UInt8 → Bool) (native : Bool) (line : Bytes) : Outcome :=
  if isSkipped isWhitespace line then .skipped
  else assignmentOutcome
    (if native then nativeAssignment else fun k v => shellAssignment isWhitespace k (trimCr v)) line

/-- Where blanks are whitespace and nothing else is, the order of the tests
shows in one kind of assignment only: no key, and a blank in front of the
value. -/
theorem shellAssignment_isBlank (k v : Bytes) :
    shellAssignment Envfile.isBlank k v =
      if k = [] ∧ startsBlank v = true then .rejected .valueLeadingWhitespace
      else Envfile.shellAssignment k v := by
  have hstart : k.head?.any Envfile.isBlank = startsBlank k := rfl
  have hend : k.getLast?.any Envfile.isBlank = endsBlank k := rfl
  have hvalue : v.head?.any Envfile.isBlank = startsBlank v := rfl
  rw [shellAssignment, Envfile.shellAssignment, keyFault, hstart, hend, hvalue]
  by_cases hnil : k = []
  · subst hnil
    cases startsBlank v <;> rfl
  · have hboth : ¬ (k = [] ∧ startsBlank v = true) := fun h => hnil h.1
    rw [if_neg hboth, if_neg hnil, if_neg hnil]
    cases startsBlank k with
    | true => rfl
    | false =>
        cases endsBlank k with
        | true => rfl
        | false =>
            cases startsBlank v with
            | true => rfl
            | false => cases isName k <;> rfl

theorem shellAssignment_ne_skipped (isWhitespace : UInt8 → Bool) (k v : Bytes) :
    shellAssignment isWhitespace k v ≠ .skipped := by
  rw [shellAssignment]
  split
  · rintro ⟨⟩
  split
  · rintro ⟨⟩
  split
  · rintro ⟨⟩
  split
  · rintro ⟨⟩
  split
  · rintro ⟨⟩
  · cases unquote v <;> rintro ⟨⟩

theorem isSkipped_isBlank (line : Bytes) :
    isSkipped Envfile.isBlank line = Envfile.isSkipped line :=
  isSkipped_trimCr line

theorem isSkipped_assignment {isWhitespace : UInt8 → Bool}
    (hequals : isWhitespace Byte.equals = false) {k : Bytes} (hk : k ≠ []) (v : Bytes) :
    isSkipped isWhitespace (k ++ Byte.equals :: v) = (k.head? == some Byte.hash) := by
  have hall : (Byte.equals :: trimCr v).all isWhitespace = false := by
    rw [List.all_cons, hequals, Bool.false_and]
  rw [isSkipped, trimCr_assignment, List.all_append, hall, Bool.and_false, Bool.false_or,
    List.head?_append_of_ne_nil k hk]

/-! ## Substitution -/

section Subst

variable {σ ι : Type} [AddMonoidWithOne ι] (port : Port σ) (env : σ) (path : Bytes) (lineno : Nat)

/-- What a round makes of the `rest` behind a `$`, going on at an offset into
it. -/
def restRound (again : Nat → Bytes × Out ι) (before rest : Bytes) : Bytes × Out ι :=
  if rest.head? == some Byte.lbrace then
    match (rest.drop 1).idxOf? Byte.rbrace with
    | none => (before ++ Byte.dollar :: rest, 0)
    | some close =>
        let resolved := port.resolve env path lineno ((rest.take (close + 1)).drop 1)
        let tail := again (close + 2)
        (before ++ resolved.1 ++ tail.1, resolved.2 + tail.2)
  else if !rest.head?.any isNameStart then
    let tail := again 0
    (before ++ Byte.dollar :: tail.1, tail.2)
  else
    let j := 1 + ((rest.drop 1).takeWhile isNameRest).length
    let resolved := port.resolve env path lineno (rest.take j)
    let tail := again j
    (before ++ resolved.1 ++ tail.1, resolved.2 + tail.2)

/-- The offsets are those at which the suffixes begin. -/
theorem restRound_eq (again : Nat → Bytes × Out ι) (before : Bytes) {rest : Bytes}
    (hrest : rest ≠ []) :
    port.restRound env path lineno again before rest =
      dollarRound (port.get env) path lineno (fun after => again (rest.length - after.length))
        before rest := by
  have hresolve : (port.resolve env path lineno : Bytes → Bytes × Out ι) =
      resolveRef (port.get env) path lineno := rfl
  cases rest with
  | nil => exact absurd rfl hrest
  | cons c s =>
      have htail : (c :: s).drop 1 = s := rfl
      have hhead : ((c :: s).head? == some Byte.lbrace) = (c == Byte.lbrace) := rfl
      rw [restRound, dollarRound, afterDollar, hresolve, htail, hhead]
      by_cases hc : c = Byte.lbrace
      · have hclose : s.idxOf? Byte.rbrace = memchr s Byte.rbrace := rfl
        rw [if_pos (beq_iff_eq.mpr hc), if_pos hc, hclose]
        cases hfound : memchr s Byte.rbrace with
        | none => rfl
        | some n =>
            have hn := memchr_lt hfound
            have hname : ((c :: s).take (n + 1)).drop 1 = s.take n := rfl
            have hnext : n + 2 = (c :: s).length - (s.drop (n + 1)).length := by
              rw [List.length_cons, List.length_drop]
              omega
            simp only [hname, hnext]
      · have hany : (c :: s).head?.any isNameStart = isNameStart c := rfl
        rw [if_neg (mt beq_iff_eq.mp hc), if_neg hc, hany]
        cases isNameStart c with
        | false =>
            simp only [Nat.sub_self]
            rfl
        | true =>
            have hj : 1 + (s.takeWhile isNameRest).length =
                (s.takeWhile isNameRest).length + 1 := Nat.add_comm _ _
            have hsum : (s.takeWhile isNameRest).length + (s.dropWhile isNameRest).length =
                s.length := by
              rw [← List.length_append, List.takeWhile_append_dropWhile]
            have hnext : (s.takeWhile isNameRest).length + 1 =
                (c :: s).length - (s.dropWhile isNameRest).length := by
              rw [List.length_cons]
              omega
            simp only [hj, List.take_succ_cons, take_length_takeWhile]
            rw [hnext]
            rfl

/-- A round at a `$`, `gone` being what the rounds before have read. -/
theorem substLoop_dollar {gone before rest : Bytes} (hbefore : Byte.dollar ∉ before)
    (rounds : Nat) :
    (port.substLoop env path lineno (gone ++ (before ++ Byte.dollar :: rest)) (rounds + 1)
      gone.length : Bytes × Out ι) =
      if rest = [] then (before ++ [Byte.dollar], 0)
      else
        port.restRound env path lineno
          (fun n => port.substLoop env path lineno (gone ++ (before ++ Byte.dollar :: rest))
            rounds (before.length + gone.length + 1 + n)) before rest := by
  have hlen : (gone ++ (before ++ Byte.dollar :: rest)).length =
      before.length + gone.length + 1 + rest.length := by
    rw [List.length_append, List.length_append, List.length_cons]
    omega
  have hend : before.length + gone.length + 1 ≥ (gone ++ (before ++ Byte.dollar :: rest)).length ↔
      rest = [] := by
    rw [hlen, ← List.length_eq_zero_iff]
    omega
  have hfind : (before ++ Byte.dollar :: rest).idxOf? Byte.dollar = some before.length :=
    memchr_append hbefore rest
  have htext : ((gone ++ (before ++ Byte.dollar :: rest)).take
      (before.length + gone.length)).drop gone.length = before := by
    rw [List.drop_take, Nat.add_sub_cancel, List.drop_left, take_before]
  have hrest : (gone ++ (before ++ Byte.dollar :: rest)).drop
      (before.length + gone.length + 1) = rest := by
    have hsum : before.length + gone.length + 1 = gone.length + (before.length + 1) := by omega
    rw [hsum, ← List.drop_drop, List.drop_left, drop_after]
  have hnext : ∀ n m : Nat, n + 1 + (m + 2) = n + m + 3 := fun n m => by omega
  rw [substLoop, if_pos (by omega), List.drop_left, hfind]
  simp only [htext, hrest, hend]
  refine ite_congr rfl (fun _ => rfl) fun _ => ?_
  rw [restRound]
  refine ite_congr rfl (fun _ => ?_) fun _ => rfl
  cases (rest.drop 1).idxOf? Byte.rbrace with
  | none => rfl
  | some close => simp only [hnext]

/-- A round of the loop at the index from which `val` is left of the value. -/
theorem substLoop_succ {value : Bytes} (rounds : Nat) {val : Bytes} (hval : val <:+ value) :
    (port.substLoop env path lineno value (rounds + 1) (value.length - val.length) :
      Bytes × Out ι) =
      substRound (port.get env) path lineno (fun after =>
        port.substLoop env path lineno value rounds (value.length - after.length)) val := by
  obtain ⟨gone, rfl⟩ := hval
  have hindex : (gone ++ val).length - val.length = gone.length := by
    rw [List.length_append, Nat.add_sub_cancel]
  rw [hindex, substRound]
  rcases split_first Byte.dollar val with hno | ⟨before, rest, rfl, hbefore⟩
  · have hfind : val.idxOf? Byte.dollar = none := memchr_eq_none.mpr hno
    rw [substLoop, List.drop_left, hfind, memchr_eq_none.mpr hno]
    cases val with
    | nil => exact ite_self _
    | cons a val => rw [if_pos (by rw [List.length_append, List.length_cons]; omega)]
  · rw [substLoop_dollar port env path lineno hbefore, memchr_append hbefore]
    simp only [take_before, drop_after]
    by_cases hrest : rest = []
    · subst hrest
      have hend : (port.substLoop env path lineno (gone ++ (before ++ [Byte.dollar])) rounds
          ((gone ++ (before ++ [Byte.dollar])).length - 0) : Bytes × Out ι) = ([], 0) := by
        cases rounds with
        | zero => rfl
        | succ rounds => rw [substLoop, Nat.sub_zero, if_neg (Nat.lt_irrefl _)]
      simp only [dollarRound, afterDollar, List.length_nil, hend, if_true]
    · rw [if_neg hrest, port.restRound_eq env path lineno _ before hrest]
      refine dollarRound_congr _ path lineno before fun after hafter => ?_
      have hle := hafter.length_le
      have hsum : before.length + gone.length + 1 + (rest.length - after.length) =
          (gone ++ (before ++ Byte.dollar :: rest)).length - after.length := by
        rw [List.length_append, List.length_append, List.length_cons]
        omega
      simp only [hsum]

theorem substValue_eq (value : Bytes) :
    (port.substValue path lineno value env : Bytes × Out ι) =
      ((subst (port.get env) value).1,
        Out.unbound path lineno (subst (port.get env) value).2) := by
  let loop (rounds : Nat) (after : Bytes) : Bytes × Out ι :=
    port.substLoop env path lineno value rounds (value.length - after.length)
  have hround : ∀ rounds val, val <:+ value →
      loop (rounds + 1) val = substRound (port.get env) path lineno (loop rounds) val :=
    fun rounds _ hval => port.substLoop_succ env path lineno rounds hval
  have hsubst := substRounds_eq _ path lineno hround (value.length + 1) value List.suffix_rfl
    (Nat.lt_succ_self _)
  rw [← hsubst]
  show _ = port.substLoop env path lineno value (value.length + 1) (value.length - value.length)
  rw [Nat.sub_self]
  rfl

end Subst

/-! ## Values -/

theorem validShellKey_eq (k : Bytes) : validShellKey k = isName k := by
  cases k <;> rfl

theorem isBadUnquoted_eq : isBadUnquoted = Envfile.isBadUnquoted := rfl

theorem unquoteShellValue_eq (v : Bytes) : unquoteShellValue v = (unquote v).map Prod.fst := by
  rcases value_shape v with ⟨hd, hs⟩ | ⟨q, rest, rfl, hq, hr⟩ | ⟨q, inner, after, rfl, hq, hi⟩
  · rw [unquote_plain hd hs]
    cases v with
    | nil => rfl
    | cons c v =>
        have hquote : (c == Byte.dquote || c == Byte.squote) = false := by
          rw [Bool.or_eq_false_iff, beq_eq_false_iff_ne, beq_eq_false_iff_ne]
          exact ⟨fun h => hd (congrArg some h), fun h => hs (congrArg some h)⟩
        rw [unquoteShellValue, hquote, if_neg Bool.false_ne_true, isBadUnquoted_eq]
        split <;> rfl
  · have hfind : rest.idxOf? q = none := memchr_eq_none.mpr hr
    rw [unquote_open hq hr, unquoteShellValue, hfind]
    rcases hq with rfl | rfl <;> rfl
  · have hfind : (inner ++ q :: after).idxOf? q = some inner.length := memchr_append hi after
    have hquote : (q == Byte.dquote || q == Byte.squote) = true := by
      rcases hq with rfl | rfl <;> rfl
    rw [unquote_quoted hq hi, unquoteShellValue, hquote, if_pos rfl, hfind]
    cases after with
    | nil => simp [Except.map]
    | cons a after => simp [Except.map]

theorem squote_iff_trimCr {raw v : Bytes} {quoting : Quoting}
    (h : unquote (trimCr raw) = .ok (v, quoting)) :
    (raw.head? == some Byte.squote) = true ↔ quoting = .single := by
  have hhead : (raw.head? == some Byte.squote) = ((trimCr raw).head? == some Byte.squote) := by
    rcases cr_cases raw with ⟨t, rfl⟩ | hcr
    · rw [trimCr_concat_cr]
      cases t <;> rfl
    · rw [trimCr_of_getLast? hcr]
  rw [hhead]
  exact squote_iff h

/-! ## Lines -/

section Line

variable {σ ι : Type} [AddMonoidWithOne ι] (port : Port σ) (cfg : Knobs) (path : Bytes)
  (lineno : Nat)

/-- An accepted record, with its value unquoted. -/
def accept (k v : Bytes) (quoting : Quoting) : Step σ (Out ι) := fun env =>
  if cfg.action = some .dump then (env, Out.print k v)
  else if cfg.action = some .validate ∨ cfg.action = some .normalize then (env, 0)
  else
    let resolved :=
      if cfg.native || quoting != .single then port.substValue path lineno v env else (v, 0)
    (port.set env k resolved.1,
      resolved.2 + if cfg.action = some .delta then Out.print k resolved.1 else 0)

/-- A line, by what it means. -/
def record : Outcome → Step σ (Out ι)
  | .skipped => Step.skip
  | .rejected code => Step.emit (Out.check + diag path lineno code)
  | .accepted k v quoting => Step.prepend Out.check (port.accept cfg path lineno k v quoting)

theorem handleRecord_eq {raw : Bytes} {quoting : Quoting}
    (hraw : cfg.native = true ∨ ((raw.head? == some Byte.squote) = true ↔ quoting = .single))
    (k v : Bytes) :
    (port.handleRecord cfg path lineno k raw v : Step σ (Out ι)) =
      port.accept cfg path lineno k v quoting := by
  have hquote : (cfg.native || !(raw.head? == some Byte.squote))
      = (cfg.native || quoting != .single) := by
    rcases hraw with hnative | hraw
    · rw [hnative, Bool.true_or, Bool.true_or]
    · congr 2
      rw [Bool.eq_iff_iff, hraw, beq_iff_eq]
  funext env
  simp only [handleRecord, accept, hquote]

theorem processRecord_native (hnative : cfg.native = true) {k : Bytes} (hk : Byte.equals ∉ k)
    (raw trimmed : Bytes) :
    Step.prepend Out.check
        (port.processRecord cfg path lineno (k ++ Byte.equals :: raw) trimmed raw) =
      (port.record cfg path lineno (nativeAssignment k raw) : Step σ (Out ι)) := by
  have hfind : (k ++ Byte.equals :: raw).idxOf? Byte.equals = some k.length := memchr_append hk raw
  simp only [processRecord, hnative, if_true, hfind, take_before, drop_after]
  cases k with
  | nil => rfl
  | cons c k =>
      rw [nativeAssignment, if_neg (List.cons_ne_nil c k)]
      show Step.prepend _ (port.handleRecord cfg path lineno (c :: k) raw raw) = _
      have haccept : (port.handleRecord cfg path lineno (c :: k) raw raw : Step σ (Out ι)) =
          port.accept cfg path lineno (c :: k) raw .plain :=
        port.handleRecord_eq cfg path lineno (Or.inl hnative) _ _
      rw [haccept]
      rfl

theorem processRecord_shell (hshell : cfg.native = false) {k : Bytes} (hk : Byte.equals ∉ k)
    (raw : Bytes) :
    Step.prepend Out.check
        (port.processRecord cfg path lineno (k ++ Byte.equals :: raw)
          (trimCr (k ++ Byte.equals :: raw)) raw) =
      (port.record cfg path lineno (shellAssignment port.isWhitespace k (trimCr raw)) :
        Step σ (Out ι)) := by
  have hfind : (k ++ Byte.equals :: trimCr raw).idxOf? Byte.equals = some k.length :=
    memchr_append hk _
  have hempty : (k.length == 0) = decide (k = []) := by cases k <;> rfl
  simp only [processRecord, hshell, Bool.false_eq_true, if_false, trimCr_assignment, hfind,
    take_before, drop_after, validShellKey_eq, unquoteShellValue_eq, hempty, decide_eq_true_eq]
  rw [shellAssignment]
  cases k.head?.any port.isWhitespace with
  | true => rfl
  | false =>
      cases k.getLast?.any port.isWhitespace with
      | true => rfl
      | false =>
          cases (trimCr raw).head?.any port.isWhitespace with
          | true => rfl
          | false =>
              simp only [Bool.false_eq_true, if_false]
              by_cases hnil : k = []
              · rw [if_pos hnil, if_pos hnil]
                rfl
              rw [if_neg hnil, if_neg hnil]
              cases isName k with
              | false => rfl
              | true =>
                  cases hu : unquote (trimCr raw) with
                  | error code => rfl
                  | ok p =>
                      show Step.prepend _ (port.handleRecord cfg path lineno k raw p.1) = _
                      rw [port.handleRecord_eq cfg path lineno (Or.inr (squote_iff_trimCr hu))]
                      rfl

theorem processLine_eq (hact : cfg.action ≠ some .normalize) (line : Bytes) :
    port.processLine cfg path lineno line =
      Step.prepend (Out.hand line lineno)
        (port.record cfg path lineno (outcome port.isWhitespace cfg.native line) :
          Step σ (Out ι)) := by
  rw [processLine, outcome, isSkipped, isBlank]
  congr 1
  cases (trimCr line).all port.isWhitespace with
  | true => rfl
  | false =>
      cases (trimCr line).head? == some Byte.hash with
      | true => rfl
      | false =>
          simp only [Bool.or_false, Bool.false_eq_true, if_false, hact]
          rw [assignmentOutcome]
          rcases line_shape line with ⟨hno, hsplit⟩ | ⟨k, raw, rfl, hk, hsplit⟩
          · have hfind : line.idxOf? Byte.equals = none := memchr_eq_none.mpr hno
            rw [hfind, hsplit]
            rfl
          · have hfind : (k ++ Byte.equals :: raw).idxOf? Byte.equals = some k.length :=
              memchr_append hk raw
            rw [hfind, hsplit]
            simp only [drop_after]
            cases hnative : cfg.native with
            | true => exact port.processRecord_native cfg path lineno hnative hk raw _
            | false => exact port.processRecord_shell cfg path lineno hnative hk raw

/-- An accepted record counts nothing, and reports unbound references only. -/
theorem accept_writes (k v : Bytes) (quoting : Quoting) (env : σ) :
    (port.accept cfg path lineno k v quoting env : σ × Out ι).2.checked = 0 ∧
      ∀ code ∈ (port.accept cfg path lineno k v quoting env : σ × Out ι).2.codes,
        code = .unboundRef := by
  have hstored : ∀ o : Out ι, o.checked = 0 → o.codes = [] →
      ∀ resolved : Bytes × Out ι,
      (resolved = (v, 0) ∨ resolved = port.substValue path lineno v env) →
        (resolved.2 + o).checked = 0 ∧ ∀ code ∈ (resolved.2 + o).codes, code = .unboundRef := by
    intro o hchecked hcodes resolved hresolved
    rw [Out.add_checked, Out.codes_add, hchecked, hcodes, List.append_nil, add_zero]
    rcases hresolved with rfl | rfl
    · exact ⟨rfl, fun _ h => absurd h List.not_mem_nil⟩
    · rw [substValue_eq, Out.unbound_eq]
      refine ⟨rfl, ?_⟩
      intro code hcode
      rw [Out.codes, List.map_map] at hcode
      obtain ⟨name, -, rfl⟩ := List.mem_map.mp hcode
      rfl
  rw [accept]
  split
  · exact ⟨rfl, fun _ h => absurd h List.not_mem_nil⟩
  split
  · exact ⟨rfl, fun _ h => absurd h List.not_mem_nil⟩
  refine hstored _ ?_ ?_ _ ?_
  · split <;> rfl
  · split <;> rfl
  · split
    · exact Or.inr rfl
    · exact Or.inl rfl

theorem record_checked (o : Outcome) (env : σ) :
    (port.record cfg path lineno o env : σ × Out ι).2.checked =
      if o = .skipped then 0 else 1 := by
  cases o with
  | skipped => rfl
  | rejected code => exact add_zero 1
  | accepted k v quoting =>
      show 1 + (port.accept cfg path lineno k v quoting env : σ × Out ι).2.checked = 1
      rw [(port.accept_writes cfg path lineno k v quoting env).1, add_zero]

/-- Apart from unbound references, the code of the outcome is all that is
reported. -/
theorem record_codes (o : Outcome) (env : σ) :
    (port.record cfg path lineno o env : σ × Out ι).2.codes.filter (· != .unboundRef) =
      o.codes.filter (· != .unboundRef) := by
  cases o with
  | skipped => rfl
  | rejected code => rfl
  | accepted k v quoting =>
      refine List.filter_eq_nil_iff.mpr ?_
      intro code hcode
      have hunbound := (port.accept_writes (ι := ι) cfg path lineno k v quoting env).2 code hcode
      rw [hunbound]
      decide

theorem outcome_eq_skipped {isWhitespace : UInt8 → Bool} {native : Bool} {line : Bytes} :
    outcome isWhitespace native line = .skipped ↔ isSkipped isWhitespace line = true := by
  rw [outcome]
  cases isSkipped isWhitespace line with
  | true => exact ⟨fun _ => rfl, fun _ => rfl⟩
  | false =>
      refine iff_of_false ?_ Bool.false_ne_true
      rw [if_neg Bool.false_ne_true, assignmentOutcome]
      split
      · rintro ⟨⟩
      cases native with
      | true => exact assignment_ne_skipped true _ _
      | false => exact shellAssignment_ne_skipped _ _ _

/-- What is written about a line that is printed as it is. -/
def printed (path : Bytes) (lineno : Nat) (line : Bytes) : Out ι :=
  match splitEquals line with
  | none => diag path lineno .noEquals
  | some (rawKey, rawValue) => Out.print rawKey rawValue

theorem printed_checked (line : Bytes) : (printed path lineno line : Out ι).checked = 0 := by
  rw [printed]
  split <;> rfl

theorem printed_codes (line : Bytes) :
    ∀ code ∈ (printed path lineno line : Out ι).codes, code = .noEquals := by
  intro code hcode
  rw [printed] at hcode
  split at hcode
  · exact List.mem_singleton.mp hcode
  · exact absurd hcode List.not_mem_nil

theorem processLine_normalize (hact : cfg.action = some .normalize) (line : Bytes) :
    port.processLine cfg path lineno line =
      Step.prepend (Out.hand line lineno)
        (if isSkipped port.isWhitespace line then Step.skip
        else Step.emit (Out.check + printed path lineno line : Out ι)) := by
  rw [processLine, isSkipped, isBlank]
  congr 1
  cases (trimCr line).all port.isWhitespace with
  | true => rfl
  | false =>
      cases (trimCr line).head? == some Byte.hash with
      | true => rfl
      | false =>
          simp only [Bool.or_false, Bool.false_eq_true, if_false, hact, if_true]
          rw [printed]
          rcases line_shape line with ⟨hno, hsplit⟩ | ⟨k, raw, rfl, hk, hsplit⟩
          · have hfind : line.idxOf? Byte.equals = none := memchr_eq_none.mpr hno
            rw [hfind, hsplit]
            rfl
          · have hfind : (k ++ Byte.equals :: raw).idxOf? Byte.equals = some k.length :=
              memchr_append hk raw
            rw [hfind, hsplit]
            simp only [take_before, drop_after]
            rfl

theorem processLine_checked (line : Bytes) (env : σ) :
    (port.processLine cfg path lineno line env : σ × Out ι).2.checked =
      if isSkipped port.isWhitespace line then 0 else 1 := by
  by_cases hact : cfg.action = some .normalize
  · rw [port.processLine_normalize cfg path lineno hact, Step.prepend_snd, Out.add_checked,
      Out.hand_checked, zero_add]
    cases isSkipped port.isWhitespace line with
    | true => rfl
    | false =>
        show (Out.check + printed path lineno line : Out ι).checked = 1
        rw [Out.add_checked, printed_checked]
        exact add_zero 1
  · rw [port.processLine_eq cfg path lineno hact, Step.prepend_snd, Out.add_checked,
      Out.hand_checked, zero_add, record_checked]
    simp only [outcome_eq_skipped]

theorem record_dump (hdump : cfg.action = some .dump) (o : Outcome) (env : σ) :
    port.record cfg path lineno o env =
      (env, ⟨o.bindings, o.codes.map fun code => ⟨code, none, path, some lineno⟩,
        if o = .skipped then 0 else 1, (o.codes.length : ι), []⟩) := by
  cases o with
  | skipped =>
      refine Prod.ext rfl ?_
      ext1 <;> first | rfl | exact Nat.cast_zero.symm
  | rejected code =>
      refine Prod.ext rfl ?_
      ext1 <;> first | rfl | simp [record, Step.emit, diag, Outcome.codes]
  | accepted k v quoting =>
      rw [record, Step.prepend, accept, if_pos hdump]
      refine Prod.ext rfl ?_
      ext1 <;> first | rfl | simp [Outcome.codes]

end Line

end Envfile.Port

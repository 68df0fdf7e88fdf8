/-
# `Envfile.C.Records` — the loop bodies of `envfile.c`, by outcomes

`scanRecord` asks the classifier for a status and offsets; `record` says the
same by what the line means.  The substitution loop computes
`Envfile.subst` in the environment table, piece by piece.
-/
import Envfile.C.Frontend
import Envfile.C.Classify
import Envfile.Tokenization

namespace Envfile.C

/-! ## Substitution -/

section Subst

variable (env : EnvTable) (tag : Bytes) (lineNo : Nat)

/-- A round of the loop, piece by piece. -/
theorem substLoop_succ (rounds : Nat) (val : Bytes) :
    substLoop env tag lineNo (rounds + 1) val =
      substRound (envTableGet env) tag lineNo (substLoop env tag lineNo rounds) val := by
  have hresolve : resolve env tag lineNo = resolveRef (envTableGet env) tag lineNo := rfl
  rw [substLoop, substRound, hresolve]
  cases hdollar : memchr val Byte.dollar with
  | none => cases val <;> rfl
  | some dollar =>
      have hval : ¬ val.isEmpty = true := by
        rw [List.isEmpty_iff]
        rintro rfl
        cases hdollar
      rw [if_neg hval]
      show _ = dollarRound _ _ _ _ _ _
      simp only [dollarRound]
      cases val.drop (dollar + 1) with
      | nil => rfl
      | cons c s =>
          rw [byteAt_cons_zero, afterDollar]
          have htail : (c :: s).drop 1 = s := rfl
          by_cases hc : c = Byte.lbrace
          · rw [if_pos (beq_iff_eq.mpr hc), if_pos hc, htail]
            cases memchr s Byte.rbrace <;> rfl
          · rw [if_neg (fun e => hc (beq_iff_eq.mp e)), if_neg hc]
            have hstart : isVarStart c = isNameStart c := rfl
            rw [hstart]
            cases hname : isNameStart c with
            | false => rfl
            | true =>
                have hlen : 1 + (s.takeWhile isVarRest).length =
                    (s.takeWhile isNameRest).length + 1 := Nat.add_comm _ _
                simp only [htail, hlen, List.take_succ_cons, List.drop_succ_cons,
                  take_length_takeWhile, drop_length_takeWhile]
                rfl

theorem substValue_eq (val : Bytes) :
    substValue val tag lineNo env =
      ((subst (envTableGet env) val).1,
        Out.unbound tag lineNo (subst (envTableGet env) val).2) :=
  substRounds_eq _ tag lineNo (fun rounds val _ => substLoop_succ env tag lineNo rounds val) _ val
    List.suffix_rfl (Nat.lt_succ_self _)

/-- A value has one reading as pieces.  `subst_value` puts what they stand for
end to end, reads nothing of it again, and reports each reference without a
binding once, in order; that is all it writes. -/
theorem substValue_pieces (val : Bytes) :
    ∃ ps, (∀ ps', Tokenization val ps' ↔ ps' = ps) ∧ ps.flatMap Piece.text = val ∧
      substValue val tag lineNo env =
        let names := ps.filterMap (Piece.unbound (envTableGet env))
        (ps.flatMap (Piece.value (envTableGet env)),
          ⟨[], names.map fun name => ⟨.unboundRef, some name, tag, some lineNo⟩, 0,
            (names.length : Int32), []⟩) := by
  obtain ⟨ps, h⟩ := exists_tokenization val
  refine ⟨ps, ?_, h.text, ?_⟩
  · intro ps'
    constructor
    · exact fun h' => h'.unique h
    · rintro rfl
      exact h
  · rw [substValue_eq, subst_of_tokenization h, Out.unbound_eq]

end Subst

/-! ## Records -/

section Record

variable (tag : Bytes) (action : Action) (native : Bool) (lineNo : Nat)

/-- An accepted record, with its value unquoted. -/
def accept (k v : Bytes) (quoting : Quoting) : Step EnvTable (Out Int32) := fun env =>
  match action with
  | .dump => (env, Out.print k v)
  | .delta | .apply =>
      let resolved :=
        if native || quoting != .single then substValue (cstr v) tag lineNo env else (cstr v, 0)
      (envTableSetN env k resolved.1,
        resolved.2 + if action = .delta then Out.print k (cstr resolved.1) else 0)
  | .normalize | .validate => (env, 0)

/-- A line, by what it means. -/
def record : Outcome → Step EnvTable (Out Int32)
  | .skipped => Step.skip
  | .rejected code => Step.emit (Out.check + Out.diag ⟨code, none, tag, some lineNo⟩)
  | .accepted k v quoting =>
      Step.prepend Out.check (accept tag action native lineNo k v quoting)

theorem codes_accept (k v : Bytes) (quoting : Quoting) (env : EnvTable) :
    ∀ code ∈ (accept tag action native lineNo k v quoting env).2.codes, code = .unboundRef := by
  have hresolved : ∀ code ∈ (if native || quoting != .single then
      substValue (cstr v) tag lineNo env else (cstr v, 0)).2.codes, code = .unboundRef := by
    intro code hcode
    split at hcode
    · rw [substValue_eq, Out.unbound_eq, Out.codes, List.map_map] at hcode
      obtain ⟨name, -, rfl⟩ := List.mem_map.mp hcode
      rfl
    · exact absurd hcode List.not_mem_nil
  have hstored : ∀ o : Out Int32, o.codes = [] → ∀ code ∈ ((if native || quoting != .single then
      substValue (cstr v) tag lineNo env else (cstr v, 0)).2 + o).codes, code = .unboundRef := by
    intro o ho code hcode
    rw [Out.codes_add, ho, List.append_nil] at hcode
    exact hresolved code hcode
  cases action with
  | delta => exact hstored _ rfl
  | apply => exact hstored _ rfl
  | _ => exact fun _ h => absurd h List.not_mem_nil

theorem statusName_of_rejected {line : Bytes} {code : Code}
    (h : outcome native line = .rejected code) : statusName (.ofCode code) = code := by
  rcases outcome_rejected h with ⟨rfl, -⟩ | hcode
  · rfl
  · revert hcode
    cases code <;> decide

theorem scanRecord_eq (line : Bytes) :
    scanRecord (Backend.c.parse native) tag action native line lineNo =
      Step.prepend (Out.hand line lineNo)
        (record tag action native lineNo (outcome native line)) := by
  have hparse : Backend.c.parse native line = answer (outcome native line) := by
    rw [← parse_eq]
    cases native <;> rfl
  rw [scanRecord, hparse]
  congr 1
  cases ho : outcome native line with
  | skipped => rfl
  | rejected code =>
      have hname := statusName_of_rejected native ho
      cases code <;> first | rfl | cases hname
  | accepted k v quoting =>
      obtain ⟨hk, hv⟩ := slices_of_accepted ho
      have hkind : ((recordOf k v quoting).valueKind != .singleQuoted) = (quoting != .single) := by
        cases quoting <;> rfl
      have haccept : acceptRecord tag action native line lineNo (recordOf k v quoting) =
          accept tag action native lineNo k v quoting := by
        funext env
        cases action <;> simp only [acceptRecord, accept, hk, hv, hkind]
      show Step.prepend _ (acceptRecord tag action native line lineNo (recordOf k v quoting)) = _
      rw [haccept]
      rfl

end Record

end Envfile.C

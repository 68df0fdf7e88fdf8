/-
# `Envfile.C.Refines` — the C front end refines the meaning of a run

`Represents` relates the environment table to the map it stands for.  A loop
body of `envfile.c`, under `backend.c`, refines the meaning of its line where
the line has no NUL and the classifier says of it what `classify` says; so the
run over a file refines the meaning of its lines, and the end of `main` lists
the map.
-/
import Envfile.C.Files
import Envfile.C.TableMap
import Envfile.Meaning

namespace Envfile.C

open Assign Meaning

/-- The table stands for the environment. -/
def Represents (env : EnvTable) (m : Env) : Prop := env.Keyed ∧ env.value = m

section Line

variable {cfg : Config} {env : EnvTable} {m : Env}

theorem substValue_refines (hR : Represents env m) {val : Bytes} (hnul : Byte.nul ∉ val)
    (tag : Bytes) (lineNo : Nat) :
    substValue val tag lineNo env =
        ((Envfile.subst m val).1, Out.unbound tag lineNo (Envfile.subst m val).2) ∧
      Byte.nul ∉ (Envfile.subst m val).1 := by
  obtain ⟨hkeyed, rfl⟩ := hR
  have hlookup : Envfile.subst (envTableGet env) val = Envfile.subst env.value val := by
    refine subst_congr _ ?_
    intro name hname
    have hname : Byte.nul ∉ name := fun h => hnul (mem_tokens (t := .ref name) h _ hname)
    rw [envTableGet_eq, cstr_of_nulFree hname]
  refine ⟨by rw [substValue_eq, hlookup], fun h => ?_⟩
  rcases mem_subst _ h with h | ⟨name, value, hvalue, h⟩
  · exact hnul h
  · exact (hkeyed.nulFree _ ((value_eq_some hkeyed).mp hvalue)).2 h

theorem accept_refines {k v : Bytes} (hk : Byte.nul ∉ k) (hv : Byte.nul ∉ v) (tag : Bytes)
    (action : Action) (native : Bool) (lineNo : Nat) (quoting : Quoting) :
    Refines Represents (accept tag action native lineNo k v quoting)
      (Meaning.accept native action tag lineNo k v quoting) := by
  intro env m hR
  -- the value that is stored, and what is written about it
  have hresolved : (if native || quoting != .single then substValue (cstr v) tag lineNo env
        else (cstr v, 0)) =
      ((Meaning.resolve native quoting v m).1,
        Out.unbound tag lineNo (Meaning.resolve native quoting v m).2) ∧
      Byte.nul ∉ (Meaning.resolve native quoting v m).1 := by
    rw [cstr_of_nulFree hv, Meaning.resolve]
    split
    · exact substValue_refines hR hv tag lineNo
    · exact ⟨rfl, hv⟩
  have hset : Represents (envTableSetN env k (Meaning.resolve native quoting v m).1)
      (Function.update m k (some (Meaning.resolve native quoting v m).1)) := by
    refine ⟨envTableSetN_keyed hR.1 hk _, ?_⟩
    rw [envTableSetN_value, hR.2, cstr_of_nulFree hresolved.2]
  cases action with
  | dump => exact ⟨hR, (toOut_print k v).symm⟩
  | normalize => exact ⟨hR, (map_zero _).symm⟩
  | validate => exact ⟨hR, (map_zero _).symm⟩
  | delta =>
      simp only [accept, Meaning.accept, hresolved.1]
      refine ⟨hset, ?_⟩
      rw [map_add, toOut_unbound, cstr_of_nulFree hresolved.2, if_pos trivial, if_pos trivial,
        toOut_print]
  | apply =>
      simp only [accept, Meaning.accept, hresolved.1]
      refine ⟨hset, ?_⟩
      have hno : ¬ Action.apply = Action.delta := by decide
      rw [map_add, toOut_unbound, if_neg hno, if_neg hno, map_zero]

theorem record_refines {line : Bytes} (hnul : Byte.nul ∉ line) (tag : Bytes) (action : Action)
    (native : Bool) (lineNo : Nat) :
    Refines Represents (record tag action native lineNo (outcome native line))
      (Meaning.record native action tag lineNo (outcome native line)) := by
  cases ho : outcome native line with
  | skipped => exact fun env m hR => ⟨hR, (map_zero _).symm⟩
  | rejected code =>
      have h := Refines.emit (R := Represents) (ι := Int32)
        (Out.check + Out.diag ⟨code, none, tag, some lineNo⟩)
      rwa [map_add, toOut_check, toOut_diag] at h
  | accepted k v quoting =>
      have hkv : Byte.nul ∉ k ∧ Byte.nul ∉ v := nulFree_of_accepted hnul ho
      have h := (accept_refines hkv.1 hkv.2 tag action native lineNo quoting).prepend Out.check
      rwa [toOut_check] at h

theorem normalizeRecord_refines (tag line : Bytes) (lineNo : Nat) :
    normalizeRecord tag line lineNo =
      toOut Int32 (Out.hand line lineNo + printed tag lineNo line) := by
  have hblank : isBlankOrCommentLine line = isSkipped line := isBlankOrCommentRecord_eq line
  rw [normalizeRecord, hblank, map_add, toOut_hand, printed]
  congr 1
  cases isSkipped line with
  | true => exact (map_zero _).symm
  | false =>
      rw [if_neg Bool.false_ne_true, if_neg Bool.false_ne_true, map_add, toOut_check]
      congr 1
      rcases line_shape line with ⟨hno, hsplit⟩ | ⟨k, v, rfl, hk, hsplit⟩
      · rw [memchr_eq_none.mpr hno, hsplit]
        exact (toOut_diag _).symm
      · have hvalue : bytesAt (k ++ Byte.equals :: v) (k.length + 1)
            ((k ++ Byte.equals :: v).length - k.length - 1) = v := by
          rw [length_after_key, bytesAt, drop_after, List.take_length]
        rw [memchr_append hk, hsplit]
        simp only [take_before, hvalue]
        exact (toOut_print _ _).symm

theorem body_refines {classify : Bytes → Outcome} {line : Bytes} (hnul : Byte.nul ∉ line)
    (hclass : outcome cfg.native line = classify line) (tag : Bytes) (lineNo : Nat) :
    Refines Represents (body .c cfg tag line lineNo)
      (Meaning.line cfg.native cfg.action classify tag lineNo line) := by
  by_cases hact : cfg.action = .normalize
  · intro env m hR
    rw [body, if_pos hact, Meaning.line, if_pos hact]
    exact ⟨hR, normalizeRecord_refines tag line lineNo⟩
  · have h := (record_refines hnul tag cfg.action cfg.native lineNo).prepend
      (Out.hand line lineNo)
    rw [toOut_hand, ← body_eq cfg hact] at h
    rwa [Meaning.line, if_neg hact, ← hclass]

end Line

end Envfile.C

/-
# `Envfile.Lib.Partial` — steps that may fail

What is known of a result that came out of steps each of which could have failed,
with no answer (`Option`) or with a fault (`Except`):

* `filterMap_eq_iff`: a list of which some items are dropped is whole only if none
  is;
* `ok_of_bind`: what has gone on has not stopped before;
* `foldlM_keeps`: what no step breaks, a fold that comes to its end has kept.
-/
import Mathlib.Data.List.Basic

namespace Partial

variable {α β ε σ : Type}

theorem filterMap_eq_iff {f g : α → Option β} {as : List α}
    (h : ∀ a ∈ as, f a = g a ∨ f a = none) :
    (as.filterMap f).length ≤ (as.filterMap g).length ∧
      (as.filterMap f = as.filterMap g ↔ ∀ a ∈ as, f a = g a) := by
  induction as with
  | nil => exact ⟨Nat.le_refl _, iff_of_true rfl fun _ h => absurd h List.not_mem_nil⟩
  | cons a as ih =>
      obtain ⟨hle, hiff⟩ := ih fun b hb => h b (List.mem_cons_of_mem a hb)
      rw [List.filterMap_cons, List.filterMap_cons, List.forall_mem_cons, ← hiff]
      rcases h a List.mem_cons_self with ha | ha
      · rw [ha]
        cases g a with
        | none => exact ⟨hle, by simp⟩
        | some b => exact ⟨Nat.succ_le_succ hle, by simp⟩
      · rw [ha]
        cases g a with
        | none => exact ⟨hle, by simp⟩
        | some b =>
            refine ⟨Nat.le_succ_of_le hle, iff_of_false ?_ fun h => nomatch h.1⟩
            intro heq
            have hlen := congrArg List.length heq
            simp only [List.length_cons] at hlen
            omega

theorem ok_of_bind {x : Except ε α} {f : α → Except ε β} {b : β}
    (h : x >>= f = .ok b) : ∃ a, x = .ok a ∧ f a = .ok b := by
  cases x with
  | error e => cases h
  | ok a => exact ⟨a, rfl, h⟩

theorem foldlM_keeps {P : σ → Prop} {f : σ → α → Except ε σ}
    (hf : ∀ s a s', P s → f s a = .ok s' → P s') {l : List α} {s s' : σ} (hs : P s)
    (h : l.foldlM f s = .ok s') : P s' := by
  induction l generalizing s with
  | nil =>
      obtain rfl := Except.ok.inj h
      exact hs
  | cons a l ih =>
      rw [List.foldlM_cons] at h
      obtain ⟨t, ha, hrest⟩ := ok_of_bind h
      exact ih (hf s a t hs ha) hrest

end Partial

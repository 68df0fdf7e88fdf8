/-
# `Envfile.Lib.Machine` — deterministic machines and what their runs touch

A machine takes a state either to one next state, with the list of the
*events* of that step, or nowhere: it has halted.  `Executes s e` says that
the run from `s` comes upon the event `e`.

`Ends s` is total correctness with a safety part: from `s` the machine halts,
in a state that satisfies `Q`, and every event on the way satisfies `G`.  It is
an inductive predicate, so that a proof about a program follows the program:
`Ends.step` for a straight line, an induction on the data for a loop.  What it
says about runs is read off at the end (`Ends.executes`, `Ends.halts`,
`Ends.of_reaches`).
-/
import Mathlib.Logic.Relation

/-- One step, and the events it makes; `none` when the machine has halted. -/
abbrev Machine (σ ε : Type) := σ → Option (σ × List ε)

namespace Machine

variable {σ ε : Type} {m : Machine σ ε} {G : ε → Prop} {Q : σ → Prop} {s t u : σ} {e : ε}

/-- One step, its events aside. -/
def Next (m : Machine σ ε) (s t : σ) : Prop := ∃ es, m s = some (t, es)

/-- Finitely many steps. -/
abbrev Reaches (m : Machine σ ε) : σ → σ → Prop := Relation.ReflTransGen (Next m)

/-- Some step of the run from `s` makes the event `e`. -/
def Executes (m : Machine σ ε) (s : σ) (e : ε) : Prop :=
  ∃ t u es, Reaches m s t ∧ m t = some (u, es) ∧ e ∈ es

/-- From `s` the machine halts where `Q` holds, after events that satisfy `G`. -/
inductive Ends (m : Machine σ ε) (G : ε → Prop) (Q : σ → Prop) : σ → Prop
  | halt {s : σ} (hs : m s = none) (hq : Q s) : Ends m G Q s
  | step {s t : σ} {es : List ε} (hs : m s = some (t, es)) (hg : ∀ e ∈ es, G e)
      (ht : Ends m G Q t) : Ends m G Q s

namespace Ends

theorem reaches (h : Ends m G Q s) (hst : Reaches m s t) : Ends m G Q t := by
  induction hst with
  | refl => exact h
  | tail _ hnext ih =>
      obtain ⟨es, hes⟩ := hnext
      cases ih with
      | halt hs _ => rw [hs] at hes; cases hes
      | step hs _ ht =>
          rw [hs] at hes
          obtain ⟨rfl, -⟩ := Prod.mk.inj (Option.some.inj hes)
          exact ht

theorem executes (h : Ends m G Q s) (he : Executes m s e) : G e := by
  obtain ⟨t, u, es, hst, htu, hmem⟩ := he
  cases h.reaches hst with
  | halt hs _ => rw [hs] at htu; cases htu
  | step hs hg _ =>
      rw [hs] at htu
      obtain ⟨-, rfl⟩ := Prod.mk.inj (Option.some.inj htu)
      exact hg e hmem

theorem halts (h : Ends m G Q s) : ∃ t, Reaches m s t ∧ m t = none ∧ Q t := by
  induction h with
  | halt hs hq => exact ⟨_, .refl, hs, hq⟩
  | step hs _ _ ih =>
      obtain ⟨u, hu, hnone, hq⟩ := ih
      exact ⟨u, .head ⟨_, hs⟩ hu, hnone, hq⟩

theorem of_reaches (h : Ends m G Q s) (hst : Reaches m s t) (ht : m t = none) : Q t := by
  cases h.reaches hst with
  | halt _ hq => exact hq
  | step hs _ _ => rw [hs] at ht; cases ht

end Ends

theorem Reaches.halted (hst : Reaches m s t) (ht : m t = none) (hsu : Reaches m s u) :
    Reaches m u t := by
  induction hsu with
  | refl => exact hst
  | tail _ hnext ih =>
      obtain ⟨es, hes⟩ := hnext
      rcases ih.cases_head with rfl | ⟨v, ⟨es', hes'⟩, hvt⟩
      · rw [ht] at hes
        cases hes
      · rw [hes] at hes'
        obtain ⟨rfl, -⟩ := Prod.mk.inj (Option.some.inj hes')
        exact hvt

theorem Reaches.invariant {I : σ → Prop} (hstep : ∀ s t es, m s = some (t, es) → I s → I t)
    (hst : Reaches m s t) (hs : I s) : I t := by
  induction hst with
  | refl => exact hs
  | tail _ hnext ih =>
      obtain ⟨es, hes⟩ := hnext
      exact hstep _ _ _ hes ih

end Machine

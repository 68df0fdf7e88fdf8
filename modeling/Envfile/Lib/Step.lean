/-
# `Envfile.Lib.Step` — programs that keep a state and append to an output

A program that reads a list of items one at a time, keeps a state between
them, and only ever *adds* to what it has written is a function
`α → σ → σ × ω`: the item and the old state give the new state and the
output of this one step.  Outputs form an additive monoid, which need not be
commutative, and the output of a run is the sum of the outputs of its steps
in order.

Nothing here mentions a particular program.  What a verification uses:

* `run_append`: running over a concatenation is running twice;
* `run_flatMap`: so it is over many;
* `run_filter`: items whose step does nothing may be dropped;
* `run_emit`: an item whose step only writes may be dropped with what it wrote;
* `run_eq_sum`: items that only write write their sum;
* `run_swap`: adjacent items that commute may be swapped;
* `run_inv`: what every step keeps, a run keeps;
* `Keeps`: which steps keep it, from their parts;
* `run_out`: what the output of every step has, under an invariant of the state;
* `run_explains`: the output tells how the state has changed;
* `run_sim`: two programs related step by step are related run by run;
* `run_tally`: what every step counts, a run counts.
-/
import Mathlib.Algebra.Group.Hom.Basic
import Mathlib.Data.List.Basic

/-- A step: from the state before to the state after and what it wrote. -/
abbrev Step (σ ω : Type) := σ → σ × ω

namespace Step

variable {σ τ ω υ α β : Type} [AddMonoid ω] [AddMonoid υ]

/-- Keep the state, write nothing. -/
def skip : Step σ ω := fun s => (s, 0)

/-- Keep the state, write `w`. -/
def emit (w : ω) : Step σ ω := fun s => (s, w)

/-- Write `w` first, then go on with `f`. -/
def prepend (w : ω) (f : Step σ ω) : Step σ ω := fun s => ((f s).1, w + (f s).2)

/-- `f`, then `g` from the state `f` left. -/
def andThen (f g : Step σ ω) : Step σ ω :=
  fun s => ((g (f s).1).1, (f s).2 + (g (f s).1).2)

/-- One step per item, in the order of the list. -/
def run (f : α → Step σ ω) : List α → Step σ ω
  | [] => skip
  | a :: as => andThen (f a) (run f as)

@[simp] theorem prepend_snd (w : ω) (f : Step σ ω) (s : σ) : (prepend w f s).2 = w + (f s).2 := rfl

@[simp] theorem run_nil (f : α → Step σ ω) (s : σ) : run f [] s = (s, 0) := rfl

theorem run_cons (f : α → Step σ ω) (a : α) (as : List α) (s : σ) :
    run f (a :: as) s = ((run f as (f a s).1).1, (f a s).2 + (run f as (f a s).1).2) := rfl

theorem run_singleton (f : α → Step σ ω) (a : α) (s : σ) : run f [a] s = f a s := by
  simp [run_cons]

theorem run_append (f : α → Step σ ω) (as bs : List α) (s : σ) :
    run f (as ++ bs) s =
      ((run f bs (run f as s).1).1, (run f as s).2 + (run f bs (run f as s).1).2) := by
  induction as generalizing s with
  | nil => simp
  | cons a as ih => simp only [List.cons_append, run_cons, ih, add_assoc]

theorem run_flatMap (f : β → Step σ ω) (g : α → List β) (as : List α) (s : σ) :
    run f (as.flatMap g) s = run (fun a => run f (g a)) as s := by
  induction as generalizing s with
  | nil => rfl
  | cons a as ih => rw [List.flatMap_cons, run_append, run_cons, ih]

theorem run_emit {f : α → Step σ ω} {a : α} {w : ω} (h : f a = emit w) (as bs : List α) (s : σ) :
    (run f (as ++ a :: bs) s).1 = (run f (as ++ bs) s).1 ∧
      ∃ u v, (run f (as ++ a :: bs) s).2 = u + (w + v) ∧ (run f (as ++ bs) s).2 = u + v := by
  rw [run_append, run_append, run_cons, h]
  exact ⟨rfl, (run f as s).2, (run f bs (run f as s).1).2, rfl, rfl⟩

theorem run_map (f : β → Step σ ω) (g : α → β) (as : List α) (s : σ) :
    run f (as.map g) s = run (fun a => f (g a)) as s := by
  induction as generalizing s with
  | nil => rfl
  | cons a as ih => simp only [List.map_cons, run_cons, ih]

theorem run_congr {f g : α → Step σ ω} {as : List α} (h : ∀ a ∈ as, ∀ s, f a s = g a s) (s : σ) :
    run f as s = run g as s := by
  induction as generalizing s with
  | nil => rfl
  | cons a as ih =>
      simp only [run_cons, h a List.mem_cons_self s]
      rw [ih (fun b hb => h b (List.mem_cons_of_mem _ hb))]

theorem run_eq_sum {f : α → Step σ ω} {g : α → ω} {as : List α}
    (h : ∀ a ∈ as, ∀ s, f a s = (s, g a)) (s : σ) : run f as s = (s, (as.map g).sum) := by
  induction as with
  | nil => rfl
  | cons a as ih =>
      rw [run_cons, h a List.mem_cons_self, List.map_cons, List.sum_cons,
        ih fun b hb => h b (List.mem_cons_of_mem _ hb)]

theorem run_swap {f : α → Step σ ω} {a b : α} (h : ∀ s, run f [a, b] s = run f [b, a] s)
    (pre post : List α) (s : σ) :
    run f (pre ++ a :: b :: post) s = run f (pre ++ b :: a :: post) s := by
  have hsplit : ∀ c d : α, pre ++ c :: d :: post = pre ++ ([c, d] ++ post) := fun _ _ => rfl
  rw [hsplit, hsplit, run_append, run_append _ pre, run_append, run_append _ [b, a], h]

theorem run_filter {f : α → Step σ ω} (p : α → Bool) {as : List α}
    (h : ∀ a ∈ as, p a = false → ∀ s, f a s = (s, 0)) (s : σ) :
    run f (as.filter p) s = run f as s := by
  induction as generalizing s with
  | nil => rfl
  | cons a as ih =>
      have ih' := ih (fun b hb => h b (List.mem_cons_of_mem _ hb))
      cases hp : p a with
      | true => rw [List.filter_cons_of_pos hp, run_cons, run_cons, ih']
      | false =>
          rw [List.filter_cons_of_neg (by simp [hp]), run_cons, ih', h a List.mem_cons_self hp s,
            zero_add]

theorem run_inv {f : α → Step σ ω} {as : List α} (I : σ → Prop)
    (h : ∀ a ∈ as, ∀ s, I s → I (f a s).1) {s : σ} (hs : I s) : I (run f as s).1 := by
  induction as generalizing s with
  | nil => exact hs
  | cons a as ih =>
      exact ih (fun b hb => h b (List.mem_cons_of_mem _ hb)) (h a List.mem_cons_self s hs)

/-- A step that keeps a property of the state. -/
def Keeps (I : σ → Prop) (f : Step σ ω) : Prop := ∀ s, I s → I (f s).1

namespace Keeps

variable {I : σ → Prop} {f g : Step σ ω}

theorem skip : Keeps I (Step.skip : Step σ ω) := fun _ hs => hs

omit [AddMonoid ω] in
theorem emit (w : ω) : Keeps I (Step.emit w : Step σ ω) := fun _ hs => hs

theorem prepend (w : ω) (hf : Keeps I f) : Keeps I (Step.prepend w f) := fun s hs => hf s hs

omit [AddMonoid ω] in
theorem ite {q : Prop} [Decidable q] (hf : q → Keeps I f) (hg : Keeps I g) :
    Keeps I (if q then f else g) := by
  split
  · exact hf ‹_›
  · exact hg

end Keeps

/-- A property of outputs that holds of nothing and of sums holds of every
run whose steps, taken from states that keep `I`, have it. -/
theorem run_out {f : α → Step σ ω} {as : List α} (I : σ → Prop) (P : ω → Prop)
    (h0 : P 0) (hadd : ∀ v w, P v → P w → P (v + w))
    (h : ∀ a ∈ as, ∀ s, I s → I (f a s).1 ∧ P (f a s).2) {s : σ} (hs : I s) :
    P (run f as s).2 := by
  induction as generalizing s with
  | nil => exact h0
  | cons a as ih =>
      obtain ⟨hI, hP⟩ := h a List.mem_cons_self s hs
      exact hadd _ _ hP (ih (fun b hb => h b (List.mem_cons_of_mem _ hb)) hI)

/-- Where every step changes a view `V` of the state as its output says, every
run does.  `act` is what an output does to the view. -/
theorem run_explains {f : α → Step σ ω} {as : List α} {M : Type} (I : σ → Prop) (V : σ → M)
    (act : M → ω → M) (h0 : ∀ m, act m 0 = m) (hadd : ∀ m v w, act m (v + w) = act (act m v) w)
    (h : ∀ a ∈ as, ∀ s, I s → I (f a s).1 ∧ V (f a s).1 = act (V s) (f a s).2) {s : σ}
    (hs : I s) : I (run f as s).1 ∧ V (run f as s).1 = act (V s) (run f as s).2 := by
  induction as generalizing s with
  | nil => exact ⟨hs, (h0 _).symm⟩
  | cons a as ih =>
      obtain ⟨hI, hV⟩ := h a List.mem_cons_self s hs
      obtain ⟨hI', hV'⟩ := ih (fun b hb => h b (List.mem_cons_of_mem _ hb)) hI
      refine ⟨hI', ?_⟩
      rw [run_cons, hadd, ← hV]
      exact hV'

/-- Two programs over related lists of items, related step by step on the
states by `R` and on the outputs by `S`, are related run by run.  `S` also
sees the items, so that it can count them. -/
theorem run_sim {f : α → Step σ ω} {g : β → Step τ υ} {E : α → β → Prop}
    (R : σ → τ → Prop) (S : List α → ω → υ → Prop)
    (h0 : S [] 0 0)
    (hadd : ∀ a as v v' w w', S [a] v w → S as v' w' → S (a :: as) (v + v') (w + w'))
    (h : ∀ a b, E a b → ∀ s t, R s t → R (f a s).1 (g b t).1 ∧ S [a] (f a s).2 (g b t).2) :
    ∀ {as : List α} {bs : List β}, List.Forall₂ E as bs → ∀ {s : σ} {t : τ}, R s t →
      R (run f as s).1 (run g bs t).1 ∧ S as (run f as s).2 (run g bs t).2 := by
  intro as bs hE
  induction hE with
  | nil => intro s t hR; exact ⟨hR, h0⟩
  | @cons a b as bs hab _ ih =>
      intro s t hR
      obtain ⟨hR₁, hS₁⟩ := h a b hab s t hR
      obtain ⟨hR₂, hS₂⟩ := ih hR₁
      exact ⟨hR₂, hadd a as _ _ _ _ hS₁ hS₂⟩

theorem run_hom (φ : ω →+ υ) (f : α → Step σ ω) (as : List α) (s : σ) :
    run (fun a s => ((f a s).1, φ (f a s).2)) as s = ((run f as s).1, φ (run f as s).2) := by
  induction as generalizing s with
  | nil => simp
  | cons a as ih => simp only [run_cons, ih, map_add]

/-- The sum of a count over the steps of a run, each at the state it starts in. -/
def tally (count : α → σ → Nat) (f : α → Step σ ω) : List α → σ → Nat
  | [], _ => 0
  | a :: as, s => count a s + tally count f as (f a s).1

/-- Where `R` tells how much an output comes to, the output of a run comes to
the sum over its steps. -/
theorem run_tally {count : α → σ → Nat} {f : α → Step σ ω} {as : List α} (R : ω → Nat → Prop)
    (h0 : R 0 0) (hadd : ∀ v w m n, R v m → R w n → R (v + w) (m + n))
    (h : ∀ a ∈ as, ∀ s, R (f a s).2 (count a s)) (s : σ) :
    R (run f as s).2 (tally count f as s) := by
  induction as generalizing s with
  | nil => exact h0
  | cons a as ih =>
      exact hadd _ _ _ _ (h a List.mem_cons_self s)
        (ih (fun b hb => h b (List.mem_cons_of_mem _ hb)) _)

omit [AddMonoid ω] in
theorem tally_const {count : α → σ → Nat} {f : α → Step σ ω} {as : List α} {n : Nat}
    (h : ∀ a ∈ as, ∀ s, count a s = n) (s : σ) : tally count f as s = as.length * n := by
  induction as generalizing s with
  | nil => exact (Nat.zero_mul n).symm
  | cons a as ih =>
      rw [tally, h a List.mem_cons_self, ih fun b hb => h b (List.mem_cons_of_mem _ hb),
        List.length_cons, Nat.succ_mul, Nat.add_comm]

end Step

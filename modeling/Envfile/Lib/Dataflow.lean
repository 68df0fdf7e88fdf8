/-
# `Envfile.Lib.Dataflow` — names that are read before they are bound

A program runs over a list of items (`Envfile.Lib.Step`).  An item reads the
values of some names in the state and binds some names.  A name is *live*
before a run when an item reads it that no item before it binds.

Nothing here mentions a particular program.  What a verification uses:

* `live_iff`: the definition by recursion says just that;
* `live_flatMap`: an item can be a run of its own;
* `run_agree`: two states that agree on the live names make the same output.
-/
import Envfile.Lib.Step
import Mathlib.Data.List.Flatten

namespace Dataflow

open Step

variable {α β κ ν σ ω : Type}

/-- What an item reads and binds. -/
structure Use (α κ : Type) where
  reads : α → κ → Prop
  binds : α → κ → Prop

/-- A name that is read before it is bound. -/
def Live (use : Use α κ) (k : κ) : List α → Prop
  | [] => False
  | a :: as => use.reads a k ∨ (¬ use.binds a k ∧ Live use k as)

variable (use : Use α κ) {k : κ}

theorem live_iff {as : List α} :
    Live use k as ↔
      ∃ pre a post, as = pre ++ a :: post ∧ use.reads a k ∧ ∀ b ∈ pre, ¬ use.binds b k := by
  induction as with
  | nil =>
      refine iff_of_false id ?_
      rintro ⟨pre, a, post, h, -⟩
      cases pre <;> cases h
  | cons a as ih =>
      rw [Live, ih]
      constructor
      · rintro (hreads | ⟨hbinds, pre, b, post, rfl, hreads, hpre⟩)
        · exact ⟨[], a, as, rfl, hreads, fun _ h => absurd h List.not_mem_nil⟩
        · refine ⟨a :: pre, b, post, rfl, hreads, ?_⟩
          intro c hc
          rcases List.mem_cons.mp hc with rfl | hc
          · exact hbinds
          · exact hpre c hc
      · rintro ⟨pre, b, post, h, hreads, hpre⟩
        cases pre with
        | nil =>
            obtain ⟨rfl, rfl⟩ := List.cons.inj h
            exact Or.inl hreads
        | cons c pre =>
            obtain ⟨rfl, rfl⟩ := List.cons.inj h
            refine Or.inr ⟨hpre a List.mem_cons_self, pre, b, post, rfl, hreads, ?_⟩
            intro d hd
            exact hpre d (List.mem_cons_of_mem _ hd)

theorem live_append {as bs : List α} :
    Live use k (as ++ bs) ↔
      Live use k as ∨ ((∀ a ∈ as, ¬ use.binds a k) ∧ Live use k bs) := by
  induction as with
  | nil =>
      constructor
      · intro h
        exact Or.inr ⟨fun _ h => absurd h List.not_mem_nil, h⟩
      · rintro (h | ⟨-, h⟩)
        · exact absurd h id
        · exact h
  | cons a as ih =>
      rw [List.cons_append, Live, Live, ih]
      constructor
      · rintro (h | ⟨hbinds, h | ⟨hall, h⟩⟩)
        · exact Or.inl (Or.inl h)
        · exact Or.inl (Or.inr ⟨hbinds, h⟩)
        · refine Or.inr ⟨?_, h⟩
          intro b hb
          rcases List.mem_cons.mp hb with rfl | hb
          · exact hbinds
          · exact hall b hb
      · rintro ((h | ⟨hbinds, h⟩) | ⟨hall, h⟩)
        · exact Or.inl h
        · exact Or.inr ⟨hbinds, Or.inl h⟩
        · exact Or.inr ⟨hall a List.mem_cons_self,
            Or.inr ⟨fun b hb => hall b (List.mem_cons_of_mem _ hb), h⟩⟩

/-- The use of an item that is a list of items. -/
def Use.lift (g : β → List α) : Use β κ where
  reads b k := Live use k (g b)
  binds b k := ∃ a ∈ g b, use.binds a k

theorem live_flatMap (g : β → List α) {bs : List β} :
    Live (use.lift g) k bs ↔ Live use k (bs.flatMap g) := by
  induction bs with
  | nil => exact Iff.rfl
  | cons b bs ih =>
      rw [List.flatMap_cons, live_append, Live, ih]
      refine or_congr Iff.rfl (and_congr ?_ Iff.rfl)
      constructor
      · intro h a ha hbinds
        exact h ⟨a, ha, hbinds⟩
      · rintro h ⟨a, ha, hbinds⟩
        exact h a ha hbinds

section Run

variable [AddMonoid ω] {f : α → Step σ ω} (view : σ → κ → ν)

/-- A step is told by what it reads: from states that agree there it writes the
same, and leaves states that agree on what it binds and wherever they agreed. -/
def Respects (f : α → Step σ ω) : Prop :=
  ∀ a s t, (∀ k, use.reads a k → view s k = view t k) →
    (f a s).2 = (f a t).2 ∧
      ∀ k, use.binds a k ∨ view s k = view t k → view (f a s).1 k = view (f a t).1 k

variable {use view}

/-- Two states that agree on the live names make the same output.  They go on
agreeing on the names that are live in the rest, and on all that is bound. -/
theorem run_agree (h : Respects use view f) {as : List α} {s t : σ}
    (hlive : ∀ k, Live use k as → view s k = view t k) :
    (run f as s).2 = (run f as t).2 ∧
      ∀ k, (∃ a ∈ as, use.binds a k) ∨ view s k = view t k →
        view (run f as s).1 k = view (run f as t).1 k := by
  induction as generalizing s t with
  | nil =>
      refine ⟨rfl, ?_⟩
      rintro k (⟨a, ha, -⟩ | hk)
      · exact absurd ha List.not_mem_nil
      · exact hk
  | cons a as ih =>
      obtain ⟨hout, hview⟩ := h a s t fun k hk => hlive k (Or.inl hk)
      have hrest : ∀ k, Live use k as → view (f a s).1 k = view (f a t).1 k := by
        intro k hk
        refine hview k ?_
        by_cases hbinds : use.binds a k
        · exact Or.inl hbinds
        · exact Or.inr (hlive k (Or.inr ⟨hbinds, hk⟩))
      obtain ⟨hout', hview'⟩ := ih hrest
      refine ⟨?_, ?_⟩
      · rw [run_cons, run_cons, hout, hout']
      · rintro k (⟨b, hb, hbinds⟩ | hk)
        · rcases List.mem_cons.mp hb with rfl | hb
          · exact hview' k (Or.inr (hview k (Or.inl hbinds)))
          · exact hview' k (Or.inl ⟨b, hb, hbinds⟩)
        · exact hview' k (Or.inr (hview k (Or.inr hk)))

end Run

end Dataflow

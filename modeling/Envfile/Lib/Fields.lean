/-
# `Envfile.Lib.Fields` — splitting a text into words

`fields sep s` are the maximal runs of `s` without a separator, in order: how a
shell splits what an unquoted parameter expands to, where all separators are
white space.

* `isField_of_mem`: a field is not empty and has no separator;
* `mem_of_mem_fields`: it is made of what the text is made of;
* `fields_append_cons`: a separator splits for itself;
* `fields_foldl`: words that are put behind one another, a separator in front of
  each, are split apart;
* `flatMap_fields_eq_iff`: and come back as they are exactly when each is a field;
* `head_fields`: the first field begins with what is in front of every separator.
-/
import Mathlib.Data.List.TakeWhile

namespace Fields

variable {α : Type} (sep : α → Bool)

/-- The fields of a text. -/
def fields (s : List α) : List (List α) := (s.splitOnP sep).filter (!·.isEmpty)

/-- A word that is not split. -/
structure IsField (w : List α) : Prop where
  nonempty : w ≠ []
  free : ∀ c ∈ w, sep c = false

variable {sep}

theorem of_mem_splitOnP {s : List α} :
    ∀ {w}, w ∈ s.splitOnP sep → ∀ c ∈ w, c ∈ s ∧ sep c = false := by
  induction s with
  | nil =>
      intro w hw c hc
      rw [List.splitOnP_nil, List.mem_singleton] at hw
      subst hw
      cases hc
  | cons x s ih =>
      intro w hw c hc
      have hlater : ∀ {p}, p ∈ s.splitOnP sep → ∀ c ∈ p, c ∈ x :: s ∧ sep c = false :=
        fun hp c hc => (ih hp c hc).imp_left (List.mem_cons_of_mem _)
      rw [List.splitOnP_cons_eq_if_modifyHead] at hw
      split at hw
      · rcases List.mem_cons.mp hw with rfl | hw
        · cases hc
        · exact hlater hw c hc
      · rename_i hx
        cases hpieces : s.splitOnP sep with
        | nil => exact absurd hpieces (List.splitOnP_ne_nil sep s)
        | cons p ps =>
            rw [hpieces] at hw hlater
            rcases List.mem_cons.mp hw with rfl | hw
            · rcases List.mem_cons.mp hc with rfl | hc
              · exact ⟨List.mem_cons_self, Bool.eq_false_iff.mpr hx⟩
              · exact hlater List.mem_cons_self c hc
            · exact hlater (List.mem_cons_of_mem _ hw) c hc

theorem isField_of_mem {s w : List α} (h : w ∈ fields sep s) : IsField sep w := by
  obtain ⟨hw, hne⟩ := List.mem_filter.mp h
  refine ⟨?_, fun c hc => (of_mem_splitOnP hw c hc).2⟩
  rintro rfl
  cases hne

theorem mem_of_mem_fields {s w : List α} (h : w ∈ fields sep s) : ∀ c ∈ w, c ∈ s :=
  fun c hc => (of_mem_splitOnP (List.mem_filter.mp h).1 c hc).1

theorem fields_of_isField {w : List α} (h : IsField sep w) : fields sep w = [w] := by
  rw [fields, List.splitOnP_eq_singleton h.free]
  have hne : (!w.isEmpty) = true := by
    cases w with
    | nil => exact absurd rfl h.nonempty
    | cons c w => rfl
  exact List.filter_cons_of_pos hne

theorem fields_append_cons {c : α} (hc : sep c = true) (s t : List α) :
    fields sep (s ++ c :: t) = fields sep s ++ fields sep t := by
  rw [fields, List.splitOnP_append_cons s t hc, List.filter_append]
  rfl

theorem fields_foldl {c : α} (hc : sep c = true) (ws : List (List α)) (s : List α) :
    fields sep (ws.foldl (fun t w => t ++ c :: w) s) = fields sep s ++ ws.flatMap (fields sep) := by
  induction ws generalizing s with
  | nil => rw [List.foldl_nil, List.flatMap_nil, List.append_nil]
  | cons w ws ih =>
      rw [List.foldl_cons, ih, fields_append_cons hc, List.flatMap_cons, List.append_assoc]

theorem flatMap_fields_eq_iff {ws : List (List α)} :
    ws.flatMap (fields sep) = ws ↔ ∀ w ∈ ws, IsField sep w := by
  constructor
  · intro h w hw
    rw [← h] at hw
    obtain ⟨v, -, hv⟩ := List.mem_flatMap.mp hw
    exact isField_of_mem hv
  · intro h
    induction ws with
    | nil => rfl
    | cons w ws ih =>
        rw [List.flatMap_cons, fields_of_isField (h w List.mem_cons_self),
          ih fun v hv => h v (List.mem_cons_of_mem _ hv)]
        rfl

theorem head_fields {u : List α} (hu : IsField sep u) (t : List α) :
    ∃ v rest, fields sep (u ++ t) = (u ++ v) :: rest := by
  have hsplit := List.takeWhile_append_dropWhile (p := fun c => !sep c) (l := t)
  have hv : IsField sep (u ++ t.takeWhile fun c => !sep c) := by
    refine ⟨fun h => hu.nonempty (List.append_eq_nil_iff.mp h).1, fun c hc => ?_⟩
    rcases List.mem_append.mp hc with hc | hc
    · exact hu.free c hc
    · have hkeep := List.mem_takeWhile_imp hc
      rwa [Bool.not_eq_true'] at hkeep
  cases hrest : t.dropWhile fun c => !sep c with
  | nil =>
      rw [hrest, List.append_nil] at hsplit
      rw [hsplit] at hv
      exact ⟨t, [], fields_of_isField hv⟩
  | cons c rest =>
      have hc : sep c = true := by
        have hhead := List.head?_dropWhile_not (fun c => !sep c) t
        rw [hrest] at hhead
        exact (Bool.not_eq_false _).mp fun h => by simp [h] at hhead
      refine ⟨t.takeWhile fun c => !sep c, fields sep rest, ?_⟩
      have hfields := fields_append_cons hc (u ++ t.takeWhile fun c => !sep c) rest
      rw [List.append_assoc, ← hrest, hsplit, fields_of_isField hv] at hfields
      exact hfields

end Fields

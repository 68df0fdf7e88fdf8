/-
# `Envfile.Lib.Lines` — cutting a stream at a separator

A stream of symbols is a sequence of *lines*, each closed by the separator,
followed by a *rest* that no separator closes.  `cut` computes the pair, and
the pair determines the stream and is determined by it (`cut_unlines`), so
every fact below is read off that one uniqueness lemma and not off the
recursion of `cut`.

The fact a reader that sees the stream in pieces needs is `complete_append`:
what has been read so far matters only through its rest.

`records` is the line sequence with, beside each line, whether a separator
closed it; only the last record can be open.
-/
import Mathlib.Data.List.Basic

namespace Lines

variable {α : Type} [DecidableEq α] (sep : α)

/-- The closed lines of a stream and what follows the last separator. -/
def cut : List α → List (List α) × List α
  | [] => ([], [])
  | a :: s =>
      if a = sep then ([] :: (cut s).1, (cut s).2)
      else match (cut s).1 with
        | [] => ([], a :: (cut s).2)
        | l :: ls => ((a :: l) :: ls, (cut s).2)

/-- The lines a separator closes. -/
def complete (s : List α) : List (List α) := (cut sep s).1

/-- What follows the last separator. -/
def rest (s : List α) : List α := (cut sep s).2

/-- Every line, closed by its separator. -/
def unlines (ls : List (List α)) : List α := (ls.map (· ++ [sep])).flatten

/-- The lines of a stream; a rest that is not empty is a last line. -/
def lines (s : List α) : List (List α) :=
  complete sep s ++ if rest sep s = [] then [] else [rest sep s]

/-- The lines of a stream, each with whether a separator closes it. -/
def records (s : List α) : List (List α × Bool) :=
  (complete sep s).map (·, true) ++ if rest sep s = [] then [] else [(rest sep s, false)]

/-! ## The pair and the stream determine each other -/

omit [DecidableEq α] in
@[simp] theorem unlines_nil : unlines sep [] = [] := rfl

omit [DecidableEq α] in
@[simp] theorem unlines_cons (l : List α) (ls : List (List α)) :
    unlines sep (l :: ls) = l ++ sep :: unlines sep ls := by
  simp [unlines]

omit [DecidableEq α] in
theorem unlines_append (ls ms : List (List α)) :
    unlines sep (ls ++ ms) = unlines sep ls ++ unlines sep ms := by
  simp [unlines]

omit [DecidableEq α] in
theorem mem_of_mem_unlines {ls : List (List α)} {a : α} (ha : a ≠ sep) (h : a ∈ unlines sep ls) :
    ∃ l ∈ ls, a ∈ l := by
  obtain ⟨m, hm, ham⟩ := List.mem_flatten.mp h
  obtain ⟨l, hl, rfl⟩ := List.mem_map.mp hm
  rcases List.mem_append.mp ham with hmem | hsep
  · exact ⟨l, hl, hmem⟩
  · exact absurd (List.mem_singleton.mp hsep) ha

omit [DecidableEq α] in
theorem length_unlines_sublist {ls ms : List (List α)} (h : ls.Sublist ms) :
    (unlines sep ls).length ≤ (unlines sep ms).length := by
  induction h with
  | slnil => exact Nat.le_refl _
  | cons m _ ih =>
      rw [unlines_cons, List.length_append, List.length_cons]
      omega
  | cons_cons m _ ih =>
      rw [unlines_cons, unlines_cons, List.length_append, List.length_append, List.length_cons,
        List.length_cons]
      omega

omit [DecidableEq α] in
theorem length_unlines_map_le {f : List α → List α} {ls : List (List α)}
    (h : ∀ l ∈ ls, (f l).length ≤ l.length) :
    (unlines sep (ls.map f)).length ≤ (unlines sep ls).length := by
  induction ls with
  | nil => exact Nat.le_refl _
  | cons l ls ih =>
      have hl := h l List.mem_cons_self
      have hls := ih fun m hm => h m (List.mem_cons_of_mem _ hm)
      rw [List.map_cons, unlines_cons, unlines_cons, List.length_append, List.length_append,
        List.length_cons, List.length_cons]
      omega

theorem cut_of_not_mem : ∀ {s : List α}, sep ∉ s → cut sep s = ([], s)
  | [], _ => rfl
  | a :: s, h => by
      have ha : a ≠ sep := fun e => h (e ▸ List.mem_cons_self)
      have ih := cut_of_not_mem (s := s) (fun m => h (List.mem_cons_of_mem _ m))
      simp [cut, ha, ih]

theorem cut_line : ∀ {l : List α}, sep ∉ l → ∀ s,
    cut sep (l ++ sep :: s) = (l :: (cut sep s).1, (cut sep s).2)
  | [], _, s => by simp [cut]
  | a :: l, h, s => by
      have ha : a ≠ sep := fun e => h (e ▸ List.mem_cons_self)
      have ih := cut_line (l := l) (fun m => h (List.mem_cons_of_mem _ m)) s
      simp [cut, ha, ih]

theorem cut_unlines {ls : List (List α)} (hls : ∀ l ∈ ls, sep ∉ l) {r : List α} (hr : sep ∉ r) :
    cut sep (unlines sep ls ++ r) = (ls, r) := by
  induction ls with
  | nil => simpa using cut_of_not_mem sep hr
  | cons l ls ih =>
      rw [unlines_cons, List.append_assoc, List.cons_append,
        cut_line sep (hls l List.mem_cons_self),
        ih (fun m hm => hls m (List.mem_cons_of_mem _ hm))]

theorem not_mem_of_cut : ∀ (s : List α), (∀ l ∈ complete sep s, sep ∉ l) ∧ sep ∉ rest sep s
  | [] => by simp [complete, rest, cut]
  | a :: s => by
      obtain ⟨ihc, ihr⟩ := not_mem_of_cut s
      simp only [complete, rest] at ihc ihr
      by_cases ha : a = sep
      · subst ha
        simpa [complete, rest, cut] using ⟨ihc, ihr⟩
      · cases hc : (cut sep s).1 with
        | nil =>
            simp only [complete, rest, cut, if_neg ha, hc]
            exact ⟨by simp, by simpa using ⟨fun e => ha e.symm, ihr⟩⟩
        | cons l ls =>
            rw [hc] at ihc
            simp only [complete, rest, cut, if_neg ha, hc]
            refine ⟨?_, ihr⟩
            intro m hm
            rcases List.mem_cons.mp hm with rfl | hm
            · have := ihc l List.mem_cons_self
              simpa using ⟨fun e => ha e.symm, this⟩
            · exact ihc m (List.mem_cons_of_mem _ hm)

theorem sep_not_mem_complete {s l : List α} (h : l ∈ complete sep s) : sep ∉ l :=
  (not_mem_of_cut sep s).1 l h

theorem sep_not_mem_rest (s : List α) : sep ∉ rest sep s :=
  (not_mem_of_cut sep s).2

theorem unlines_cut : ∀ (s : List α), unlines sep (complete sep s) ++ rest sep s = s
  | [] => by simp [complete, rest, cut]
  | a :: s => by
      have ih := unlines_cut s
      simp only [complete, rest] at ih
      by_cases ha : a = sep
      · subst ha
        simpa [complete, rest, cut] using ih
      · cases hc : (cut sep s).1 with
        | nil => rw [hc] at ih; simpa [complete, rest, cut, ha, hc] using ih
        | cons l ls => rw [hc] at ih; simpa [complete, rest, cut, ha, hc] using ih

theorem complete_of_not_mem {s : List α} (h : sep ∉ s) : complete sep s = [] := by
  rw [complete, cut_of_not_mem sep h]

theorem rest_of_not_mem {s : List α} (h : sep ∉ s) : rest sep s = s := by
  rw [rest, cut_of_not_mem sep h]

theorem splitOn_eq : ∀ s : List α, s.splitOn sep = complete sep s ++ [rest sep s]
  | [] => rfl
  | a :: s => by
      have ih := splitOn_eq s
      simp only [complete, rest, List.splitOn] at ih ⊢
      rw [List.splitOnP_cons_eq_if_modifyHead, ih, cut]
      by_cases ha : a = sep
      · rw [if_pos (beq_iff_eq.mpr ha), if_pos ha]
        rfl
      · rw [if_neg (fun e => ha (beq_iff_eq.mp e)), if_neg ha]
        cases (cut sep s).1 <;> rfl

/-! ## Reading in pieces -/

theorem cut_append (s t : List α) :
    cut sep (s ++ t) =
      (complete sep s ++ complete sep (rest sep s ++ t), rest sep (rest sep s ++ t)) := by
  have hs : s ++ t = unlines sep (complete sep s ++ complete sep (rest sep s ++ t))
      ++ rest sep (rest sep s ++ t) := by
    rw [unlines_append, List.append_assoc, unlines_cut, ← List.append_assoc, unlines_cut]
  conv_lhs => rw [hs]
  refine cut_unlines sep ?_ (sep_not_mem_rest sep _)
  intro l hl
  rcases List.mem_append.mp hl with h | h
  · exact sep_not_mem_complete sep h
  · exact sep_not_mem_complete sep h

theorem complete_append (s t : List α) :
    complete sep (s ++ t) = complete sep s ++ complete sep (rest sep s ++ t) := by
  simpa only [complete] using congrArg Prod.fst (cut_append sep s t)

theorem rest_append (s t : List α) : rest sep (s ++ t) = rest sep (rest sep s ++ t) := by
  simpa only [rest] using congrArg Prod.snd (cut_append sep s t)

theorem records_append (s t : List α) :
    records sep (s ++ t) = (complete sep s).map (·, true) ++ records sep (rest sep s ++ t) := by
  simp only [records, complete_append sep s t, rest_append sep s t, List.map_append,
    List.append_assoc]

theorem rest_concat (t : List α) : rest sep (t ++ [sep]) = [] := by
  have hline := cut_line sep (sep_not_mem_rest sep t) []
  rw [rest_append]
  simpa [rest, cut] using congrArg Prod.snd hline

theorem lines_concat (s : List α) : lines sep (s ++ [sep]) = s.splitOn sep := by
  have hrest : complete sep (rest sep s ++ [sep]) = [rest sep s] := by
    rw [complete, cut_line sep (sep_not_mem_rest sep s)]
    rfl
  rw [lines, if_pos (rest_concat sep s), List.append_nil, complete_append, hrest, splitOn_eq]

/-- A stream that is empty or ends in the separator leaves no rest, and no
other. -/
theorem rest_eq_nil_iff {s : List α} : rest sep s = [] ↔ s = [] ∨ ∃ t, s = t ++ [sep] := by
  constructor
  · intro h
    have hs := unlines_cut sep s
    rw [h, List.append_nil] at hs
    rcases List.eq_nil_or_concat (complete sep s) with hc | ⟨ls, l, hc⟩
    · rw [hc] at hs
      exact Or.inl hs.symm
    · rw [hc, List.concat_eq_append, unlines_append] at hs
      exact Or.inr ⟨unlines sep ls ++ l, by rw [← hs]; simp⟩
  · rintro (rfl | ⟨t, rfl⟩)
    · rfl
    · exact rest_concat sep t

theorem lines_append_of_rest {s : List α} (h : rest sep s = []) (t : List α) :
    lines sep (s ++ t) = lines sep s ++ lines sep t := by
  simp only [lines, complete_append sep s t, rest_append sep s t, h, List.nil_append]
  simp

theorem records_append_of_rest {s : List α} (h : rest sep s = []) (t : List α) :
    records sep (s ++ t) = records sep s ++ records sep t := by
  rw [records_append, h, List.nil_append]
  congr 1
  rw [records, h, if_pos rfl, List.append_nil]

omit [DecidableEq α] in
theorem split_last {s : List α} (h : sep ∈ s) : ∃ u r, s = u ++ sep :: r ∧ sep ∉ r := by
  obtain ⟨a, b, hrev, ha⟩ := List.eq_append_cons_of_mem (List.mem_reverse.mpr h)
  refine ⟨b.reverse, a.reverse, ?_, by rwa [List.mem_reverse]⟩
  rw [← List.reverse_reverse s, hrev]
  simp

/-! ## The lines of a stream -/

theorem sep_not_mem_lines {s l : List α} (h : l ∈ lines sep s) : sep ∉ l := by
  rcases List.mem_append.mp h with h | h
  · exact sep_not_mem_complete sep h
  · split at h
    · exact absurd h List.not_mem_nil
    · rw [List.mem_singleton.mp h]; exact sep_not_mem_rest sep s

theorem lines_unlines {ls : List (List α)} (h : ∀ l ∈ ls, sep ∉ l) :
    lines sep (unlines sep ls) = ls := by
  have hc := cut_unlines sep h (r := []) List.not_mem_nil
  rw [List.append_nil] at hc
  simp [lines, complete, rest, hc]

theorem unlines_lines {s : List α} (h : rest sep s = []) : unlines sep (lines sep s) = s := by
  have hs := unlines_cut sep s
  rw [h, List.append_nil] at hs
  rw [lines, if_pos h, List.append_nil, hs]

theorem lines_of_not_mem {s : List α} (h : sep ∉ s) (hs : s ≠ []) : lines sep s = [s] := by
  rw [lines, complete_of_not_mem sep h, rest_of_not_mem sep h, if_neg hs, List.nil_append]

theorem lines_line {l : List α} (h : sep ∉ l) (s : List α) :
    lines sep (l ++ sep :: s) = l :: lines sep s := by
  simp only [lines, complete, rest, cut_line sep h s, List.cons_append]
  rfl

theorem records_of_not_mem {s : List α} (h : sep ∉ s) (hs : s ≠ []) :
    records sep s = [(s, false)] := by
  rw [records, complete_of_not_mem sep h, rest_of_not_mem sep h, if_neg hs, List.map_nil,
    List.nil_append]

theorem records_line {l : List α} (h : sep ∉ l) (s : List α) :
    records sep (l ++ sep :: s) = (l, true) :: records sep s := by
  simp only [records, complete, rest, cut_line sep h s, List.map_cons, List.cons_append]
  rfl

theorem lines_eq_nil_iff {s : List α} : lines sep s = [] ↔ s = [] := by
  constructor
  · intro h
    have hs := unlines_cut sep s
    simp only [lines, List.append_eq_nil_iff] at h
    have hr : rest sep s = [] := by
      by_contra hne
      simp [hne] at h
    rw [h.1, hr] at hs
    exact hs.symm
  · rintro rfl; rfl

theorem mem_of_mem_lines {s l : List α} {a : α} (hl : l ∈ lines sep s) (ha : a ∈ l) : a ∈ s := by
  rw [← unlines_cut sep s]
  rcases List.mem_append.mp hl with h | h
  · exact List.mem_append_left _ (List.mem_flatten.mpr
      ⟨l ++ [sep], List.mem_map_of_mem h, List.mem_append_left _ ha⟩)
  · split at h
    · exact absurd h List.not_mem_nil
    · rw [List.mem_singleton.mp h] at ha
      exact List.mem_append_right _ ha

theorem exists_line_of_mem {s : List α} {a : α} (hne : a ≠ sep) (ha : a ∈ s) :
    ∃ l ∈ lines sep s, a ∈ l := by
  rw [← unlines_cut sep s, List.mem_append] at ha
  rcases ha with ha | ha
  · obtain ⟨l, hl, ha⟩ := mem_of_mem_unlines sep hne ha
    exact ⟨l, List.mem_append_left _ hl, ha⟩
  · refine ⟨rest sep s, List.mem_append_right _ ?_, ha⟩
    rw [if_neg (List.ne_nil_of_mem ha)]
    exact List.mem_singleton_self _

/-- The lines before a separator that ends the stream are no longer than the
stream without it. -/
theorem length_le_of_mem_lines_concat {u l : List α} (h : l ∈ lines sep (u ++ [sep])) :
    l.length ≤ u.length := by
  have hrest := rest_concat sep u
  rw [lines, hrest, if_pos rfl, List.append_nil] at h
  obtain ⟨ls, ms, hsplit⟩ := List.append_of_mem h
  have hs := congrArg List.length (unlines_cut sep (u ++ [sep]))
  rw [hrest, List.append_nil, hsplit, unlines_append, unlines_cons] at hs
  simp only [List.length_append, List.length_cons, List.length_nil] at hs
  omega

theorem first_prefix {s l : List α} {ls : List (List α)} (h : lines sep s = l :: ls) :
    l <+: s := by
  by_cases hs : sep ∈ s
  · obtain ⟨u, t, rfl, hu⟩ := List.eq_append_cons_of_mem hs
    rw [lines_line sep hu] at h
    obtain rfl := (List.cons.inj h).1
    exact List.prefix_append _ _
  · rcases eq_or_ne s [] with rfl | hne
    · cases h
    · rw [lines_of_not_mem sep hs hne] at h
      obtain rfl := (List.cons.inj h).1
      exact List.prefix_rfl

omit [DecidableEq α] in
/-- What a stream starts with and has no separator is in front of the first
one. -/
theorem prefix_line_iff {u : List α} (hu : sep ∉ u) (l s : List α) :
    u <+: l ++ sep :: s ↔ u <+: l := by
  constructor
  · intro h
    rcases Nat.lt_or_ge l.length u.length with hlt | hge
    · -- the separator would be in it
      have hline : l ++ [sep] <+: l ++ sep :: s := ⟨s, by rw [List.append_assoc]; rfl⟩
      have hshort : (l ++ [sep]).length ≤ u.length := by
        rw [List.length_append]
        exact hlt
      exact absurd ((List.prefix_of_prefix_length_le hline h hshort).subset
        (List.mem_append_right _ (List.mem_singleton_self sep))) hu
    · exact List.prefix_of_prefix_length_le h (List.prefix_append _ _) hge
  · intro h
    exact h.trans (List.prefix_append _ _)

/-- What is pending before a stream is read to its end is a prefix of one of
its lines. -/
theorem rest_prefix_line (s t : List α) (h : rest sep s ≠ []) :
    ∃ l ∈ lines sep (s ++ t), rest sep s <+: l := by
  have hmem : ∀ l ∈ lines sep (rest sep s ++ t), l ∈ lines sep (s ++ t) := by
    intro l hl
    simp only [lines, complete_append sep s t, rest_append sep s t] at hl ⊢
    exact List.mem_append.mpr ((List.mem_append.mp hl).imp (List.mem_append_right _) id)
  have hr := sep_not_mem_rest sep s
  by_cases ht : sep ∈ t
  · obtain ⟨u, v, rfl, hu⟩ := List.eq_append_cons_of_mem ht
    refine ⟨rest sep s ++ u, hmem _ ?_, List.prefix_append _ _⟩
    rw [← List.append_assoc, lines_line sep (by simp [hr, hu])]
    exact List.mem_cons_self
  · refine ⟨rest sep s ++ t, hmem _ ?_, List.prefix_append _ _⟩
    rw [lines_of_not_mem sep (by simp [hr, ht]) (by simp [h])]
    exact List.mem_singleton_self _

/-- What is put before a stream without a separator is put before its first
line. -/
theorem lines_prefix {u : List α} (h : sep ∉ u) (hu : u ≠ []) (s : List α) :
    lines sep (u ++ s) =
      match lines sep s with
      | [] => [u]
      | l :: ls => (u ++ l) :: ls := by
  by_cases hs : sep ∈ s
  · obtain ⟨l, t, rfl, hl⟩ := List.eq_append_cons_of_mem hs
    rw [← List.append_assoc, lines_line sep (by simp [h, hl]), lines_line sep hl]
  · rcases eq_or_ne s [] with rfl | hne
    · rw [List.append_nil, lines_of_not_mem sep h hu]
      rfl
    · rw [lines_of_not_mem sep (by simp [h, hs]) (by simp [hu]), lines_of_not_mem sep hs hne]

/-! ## Which line is closed -/

section Mark

variable {β : Type}

/-- Every item marked `true`, the last one `closed`. -/
def mark (closed : Bool) : List β → List (β × Bool)
  | [] => []
  | [b] => [(b, closed)]
  | b :: c :: bs => (b, true) :: mark closed (c :: bs)

theorem mark_true : ∀ bs : List β, mark true bs = bs.map (·, true)
  | [] => rfl
  | [_] => rfl
  | b :: c :: bs => by rw [mark, mark_true (c :: bs), List.map_cons (a := b)]

theorem mark_concat (closed : Bool) (b : β) :
    ∀ bs : List β, mark closed (bs ++ [b]) = bs.map (·, true) ++ [(b, closed)]
  | [] => rfl
  | [_] => rfl
  | a :: c :: bs => by
      rw [List.cons_append, List.cons_append, mark, ← List.cons_append,
        mark_concat closed b (c :: bs)]
      rfl

theorem mem_of_mem_mark {closed : Bool} {p : β × Bool} : ∀ {bs : List β},
    p ∈ mark closed bs → p.1 ∈ bs
  | [], h => absurd h List.not_mem_nil
  | [b], h => by
      rw [List.mem_singleton.mp h]
      exact List.mem_singleton_self b
  | b :: c :: bs, h => by
      rcases List.mem_cons.mp h with rfl | h
      · exact List.mem_cons_self
      · exact List.mem_cons_of_mem _ (mem_of_mem_mark h)

end Mark

/-- Only the last line can be open, and it is when something follows the last
separator. -/
theorem records_eq_mark (s : List α) :
    records sep s = mark (decide (rest sep s = [])) (lines sep s) := by
  rw [records, lines]
  by_cases h : rest sep s = []
  · rw [if_pos h, if_pos h, List.append_nil, List.append_nil, decide_eq_true h, mark_true]
  · rw [if_neg h, if_neg h, decide_eq_false h, mark_concat]

/-! ## Numbered lines -/

section Number

variable {β : Type}

/-- The items of a list, numbered from `n + 1` on. -/
def number (n : Nat) : List β → List (β × Nat)
  | [] => []
  | b :: bs => (b, n + 1) :: number (n + 1) bs

theorem number_append (bs cs : List β) (n : Nat) :
    number n (bs ++ cs) = number n bs ++ number (n + bs.length) cs := by
  induction bs generalizing n with
  | nil => rfl
  | cons b bs ih =>
      rw [List.cons_append, number, number, ih, List.length_cons, Nat.add_assoc, Nat.add_comm 1]
      rfl

theorem number_add (bs : List β) (n k : Nat) :
    number (n + k) bs = (number n bs).map fun p => (p.1, p.2 + k) := by
  induction bs generalizing n with
  | nil => rfl
  | cons b bs ih =>
      rw [number, number, List.map_cons, ← ih (n + 1), Nat.add_right_comm]

theorem number_fst (bs : List β) (n : Nat) : (number n bs).map Prod.fst = bs := by
  induction bs generalizing n with
  | nil => rfl
  | cons b bs ih => rw [number, List.map_cons, ih]

theorem mem_number {bs : List β} {n : Nat} {p : β × Nat} (h : p ∈ number n bs) : p.1 ∈ bs := by
  rw [← number_fst bs n]
  exact List.mem_map_of_mem h

end Number

end Lines

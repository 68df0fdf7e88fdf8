/-
# `Envfile.Continuation` — joining continued lines

A physical line that ends in an odd number of backslashes goes on with the
next one; the last backslash goes.  `joinFrom acc n ls` is the list of logical
lines of `ls`, each with the number of its last physical line, when `acc` has
been gathered before and `n` lines have been read.  A line at the end of the
file has no next line and is a logical line as it stands.

What has been gathered ends in an even number of backslashes, so that whether
the whole goes on is decided by the physical line that was added last
(`continues_append`).
-/
import Envfile.Lib.Lines
import Envfile.Bytes

namespace Envfile

/-- The number of backslashes at the end of a line. -/
def trailing (line : Bytes) : Nat := (line.reverse.takeWhile (· == Byte.backslash)).length

/-- An odd number of backslashes at the end. -/
def continues (line : Bytes) : Bool := trailing line % 2 == 1

/-- What is gathered for the next line once `l` has been added to `acc`. -/
def gathered (acc l : Bytes) : Bytes := if continues (acc ++ l) then (acc ++ l).dropLast else []

/-- The logical lines of the lines `ls`. -/
def joinFrom (acc : Bytes) (n : Nat) : List Bytes → List (Bytes × Nat)
  | [] => []
  | [l] => [(acc ++ l, n + 1)]
  | l :: m :: ls =>
    (if continues (acc ++ l) then [] else [(acc ++ l, n + 1)]) ++
      joinFrom (gathered acc l) (n + 1) (m :: ls)

/-- The last logical line of the lines `ls` goes on. -/
def pending (acc : Bytes) : List Bytes → Bool
  | [] => false
  | [l] => continues (acc ++ l)
  | l :: m :: ls => pending (gathered acc l) (m :: ls)

/-! ## Parity -/

theorem trailing_append (u v : Bytes) :
    trailing (u ++ v) = if trailing v = v.length then v.length + trailing u else trailing v := by
  rw [trailing, trailing, trailing, List.reverse_append, List.takeWhile_append, List.length_reverse]
  split
  · rw [List.length_append, List.length_reverse]
  · rfl

theorem trailing_concat_backslash (s : Bytes) : trailing (s ++ [Byte.backslash]) = 1 + trailing s :=
  (trailing_append s [Byte.backslash]).trans (if_pos rfl)

theorem trailing_concat_of_ne (s : Bytes) {c : UInt8} (hc : c ≠ Byte.backslash) :
    trailing (s ++ [c]) = 0 := by
  rw [trailing, List.reverse_append, List.reverse_singleton, List.singleton_append,
    List.takeWhile_cons_of_neg (by simpa using hc)]
  rfl

theorem eq_concat_of_continues {s : Bytes} (h : continues s = true) :
    ∃ t, s = t ++ [Byte.backslash] := by
  rcases List.eq_nil_or_concat s with rfl | ⟨t, c, rfl⟩
  · cases h
  rw [List.concat_eq_append] at h ⊢
  by_cases hc : c = Byte.backslash
  · exact ⟨t, by rw [hc]⟩
  · rw [continues, trailing_concat_of_ne t hc] at h
    cases h

theorem continues_append {acc : Bytes} (h : continues acc = false) (l : Bytes) :
    continues (acc ++ l) = continues l := by
  rw [continues, beq_eq_false_iff_ne] at h
  rw [continues, continues, trailing_append]
  split
  · have heven : (l.length + trailing acc) % 2 = l.length % 2 := by omega
    rw [heven, ‹trailing l = l.length›]
  · rfl

theorem continues_dropLast {s : Bytes} (h : continues s = true) :
    continues s.dropLast = false ∧ s ≠ [] := by
  obtain ⟨t, rfl⟩ := eq_concat_of_continues h
  rw [continues, beq_iff_eq, trailing_concat_backslash] at h
  refine ⟨?_, by simp⟩
  rw [List.dropLast_concat, continues, beq_eq_false_iff_ne]
  omega

/-! ## Logical lines -/

section Join

variable {acc : Bytes} {n : Nat} {l : Bytes} {ls : List Bytes}

theorem continues_gathered (acc l : Bytes) : continues (gathered acc l) = false := by
  rw [gathered]
  split
  · exact (continues_dropLast ‹_›).1
  · rfl

theorem joinFrom_prefix (hacc : continues acc = false) :
    ∀ {ls : List Bytes}, ls ≠ [] → ∃ q ∈ joinFrom acc n ls, acc <+: q.1 := by
  intro ls
  induction ls generalizing acc n with
  | nil => exact fun h => absurd rfl h
  | cons l ls ih =>
      intro _
      cases ls with
      | nil => exact ⟨_, List.mem_singleton_self _, List.prefix_append _ _⟩
      | cons m ls =>
          obtain ⟨q, hq, hpre⟩ := ih (n := n + 1) (continues_gathered acc l) (List.cons_ne_nil m ls)
          rw [joinFrom]
          cases hcont : continues (acc ++ l) with
          | false => exact ⟨_, List.mem_append_left _ List.mem_cons_self, List.prefix_append _ _⟩
          | true =>
              have hl : l ≠ [] := by
                rintro rfl
                rw [List.append_nil, hacc] at hcont
                exact Bool.false_ne_true hcont
              refine ⟨q, List.mem_append_right _ hq, List.IsPrefix.trans ?_ hpre⟩
              rw [gathered, if_pos hcont, List.dropLast_append_of_ne_nil hl]
              exact List.prefix_append _ _

theorem mem_joinFrom {q : Bytes × Nat} {c : UInt8} : ∀ {acc : Bytes} {n : Nat} {ls : List Bytes},
    q ∈ joinFrom acc n ls → c ∈ q.1 → c ∈ acc ∨ ∃ l ∈ ls, c ∈ l
  | _, _, [], hq, _ => absurd hq List.not_mem_nil
  | acc, n, [l], hq, hc => by
      rw [joinFrom, List.mem_singleton] at hq
      rw [hq, List.mem_append] at hc
      exact hc.imp id fun h => ⟨l, List.mem_singleton_self l, h⟩
  | acc, n, l :: m :: ls, hq, hc => by
      have hline : c ∈ acc ++ l → c ∈ acc ∨ ∃ k ∈ l :: m :: ls, c ∈ k := by
        rw [List.mem_append]
        intro h
        exact h.imp id fun h => ⟨l, List.mem_cons_self, h⟩
      rw [joinFrom, List.mem_append] at hq
      rcases hq with hq | hq
      · split at hq
        · exact absurd hq List.not_mem_nil
        · rw [List.mem_singleton] at hq
          rw [hq] at hc
          exact hline hc
      · rcases mem_joinFrom hq hc with h | ⟨k, hk, h⟩
        · rw [gathered] at h
          split at h
          · exact hline (List.dropLast_subset _ h)
          · exact absurd h List.not_mem_nil
        · exact Or.inr ⟨k, List.mem_cons_of_mem _ hk, h⟩

theorem joinFrom_cons (h : ls ≠ []) :
    joinFrom acc n (l :: ls) =
      (if continues (acc ++ l) then [] else [(acc ++ l, n + 1)]) ++
        joinFrom (gathered acc l) (n + 1) ls := by
  cases ls with
  | nil => exact absurd rfl h
  | cons m ls => rfl

theorem joinFrom_last : ∀ (acc : Bytes) (n : Nat) {ls : List Bytes}, ls ≠ [] →
    ∃ init q, joinFrom acc n ls = init ++ [q] ∧ continues q.1 = pending acc ls
  | _, _, [], h => absurd rfl h
  | acc, n, [l], _ => ⟨[], (acc ++ l, n + 1), rfl, rfl⟩
  | acc, n, l :: m :: ls, _ => by
      obtain ⟨init, q, hjoin, hq⟩ := joinFrom_last (gathered acc l) (n + 1)
        (List.cons_ne_nil m ls)
      rw [joinFrom, hjoin, ← List.append_assoc]
      exact ⟨_, q, rfl, hq⟩

theorem joinFrom_pending (h : pending acc ls = true) :
    ∃ init q, joinFrom acc n ls = init ++ [q] ∧ continues q.1 = true := by
  have hls : ls ≠ [] := by
    rintro rfl
    cases h
  obtain ⟨init, q, hjoin, hq⟩ := joinFrom_last acc n hls
  exact ⟨init, q, hjoin, hq.trans h⟩

theorem not_blank_of_continues {s : Bytes} (h : continues s = true) : isBlankLine s = false := by
  obtain ⟨t, rfl⟩ := eq_concat_of_continues h
  rw [isBlankLine, trimCr_of_getLast? (by rw [List.getLast?_concat]; decide), List.all_append]
  exact Bool.and_false _

/-- The last logical line ends as the last physical line does. -/
theorem pending_eq (hacc : continues acc = false) :
    pending acc ls = ls.getLast?.any continues := by
  induction ls generalizing acc with
  | nil => rfl
  | cons l ls ih =>
      cases ls with
      | nil =>
          rw [pending, continues_append hacc]
          rfl
      | cons m ls =>
          rw [pending, ih (continues_gathered acc l), List.getLast?_cons_cons]

theorem length_joinFrom : ∀ (acc : Bytes) (n : Nat) (ls : List Bytes),
    (Lines.unlines Byte.nl ((joinFrom acc n ls).map Prod.fst)).length ≤
      acc.length + (Lines.unlines Byte.nl ls).length
  | _, _, [] => Nat.zero_le _
  | acc, n, [l] => by
      rw [joinFrom, List.map_singleton, Lines.unlines_cons, Lines.unlines_cons, List.append_assoc,
        List.length_append]
  | acc, n, l :: m :: ls => by
      have hrest := length_joinFrom (gathered acc l) (n + 1) (m :: ls)
      rw [joinFrom, List.map_append, Lines.unlines_append, Lines.unlines_cons, List.length_append,
        List.length_append, List.length_cons]
      rw [gathered] at hrest ⊢
      cases hcont : continues (acc ++ l) with
      | true =>
          rw [hcont, if_pos rfl, List.length_dropLast, List.length_append] at hrest
          rw [if_pos rfl, if_pos rfl, List.map_nil, Lines.unlines_nil, List.length_nil]
          omega
      | false =>
          rw [hcont, if_neg Bool.false_ne_true, List.length_nil] at hrest
          rw [if_neg Bool.false_ne_true, if_neg Bool.false_ne_true, List.map_singleton,
            Lines.unlines_cons, Lines.unlines_nil, List.length_append, List.length_append,
            List.length_singleton]
          omega

theorem not_continues_of_mem_dropLast {q : Bytes × Nat} : ∀ {acc : Bytes} {n : Nat}
    {ls : List Bytes}, q ∈ (joinFrom acc n ls).dropLast → continues q.1 = false
  | _, _, [], h => absurd h List.not_mem_nil
  | _, _, [_], h => absurd h List.not_mem_nil
  | acc, n, l :: m :: ls, h => by
      rw [joinFrom, List.dropLast_append] at h
      split at h
      · have h := List.dropLast_subset _ h
        split at h
        · exact absurd h List.not_mem_nil
        · rw [List.mem_singleton.mp h]
          exact Bool.eq_false_iff.mpr ‹_›
      · rcases List.mem_append.mp h with h | h
        · split at h
          · exact absurd h List.not_mem_nil
          · rw [List.mem_singleton.mp h]
            exact Bool.eq_false_iff.mpr ‹_›
        · exact not_continues_of_mem_dropLast h

theorem joinFrom_settled : ∀ {n : Nat} {ls : List Bytes},
    (∀ l ∈ ls.dropLast, continues l = false) → joinFrom [] n ls = Lines.number n ls
  | _, [], _ => rfl
  | _, [_], _ => rfl
  | n, l :: m :: ls, h => by
      have hl : continues ([] ++ l) = false := h l List.mem_cons_self
      rw [joinFrom, gathered, hl, if_neg Bool.false_ne_true, if_neg Bool.false_ne_true,
        joinFrom_settled fun k hk => h k (List.mem_cons_of_mem _ hk)]
      rfl

end Join

/-! ## Joining by looking ahead -/

/-- A loop that gathers lines from `i` on until what it has gathered goes on no
more: the logical line, the lines behind it, and the index past it. -/
structure LooksAhead (gather : Bytes → List Bytes → Nat → Bytes × List Bytes × Nat) : Prop where
  nil : ∀ line i, gather line [] i = (line, [], i)
  cons : ∀ line next lines i, gather line (next :: lines) i =
    if continues line then gather (line.dropLast ++ next) lines (i + 1)
    else (line, next :: lines, i)

/-- A loop over the lines at index `i` that gathers a logical line a round. -/
structure GatherLoop (gather : Bytes → List Bytes → Nat → Bytes × List Bytes × Nat)
    (join : Nat → List Bytes → Nat → List (Bytes × Nat)) : Prop where
  ahead : LooksAhead gather
  nil : ∀ rounds i, join rounds [] i = []
  cons : ∀ rounds line lines i, join (rounds + 1) (line :: lines) i =
    ((gather line lines (i + 1)).1, (gather line lines (i + 1)).2.2) ::
      join rounds (gather line lines (i + 1)).2.1 (gather line lines (i + 1)).2.2

section GatherLoop

variable {gather : Bytes → List Bytes → Nat → Bytes × List Bytes × Nat}
  {join : Nat → List Bytes → Nat → List (Bytes × Nat)} (h : GatherLoop gather join)

include h

theorem GatherLoop.round_eq (ls : List Bytes) : ∀ (rounds : Nat) (acc l : Bytes) (n : Nat),
    ls.length ≤ rounds →
    ((gather (acc ++ l) ls (n + 1)).1, (gather (acc ++ l) ls (n + 1)).2.2) ::
      join rounds (gather (acc ++ l) ls (n + 1)).2.1 (gather (acc ++ l) ls (n + 1)).2.2 =
    joinFrom acc n (l :: ls) := by
  induction ls with
  | nil =>
      intro rounds acc l n _
      rw [h.ahead.nil, h.nil]
      rfl
  | cons m ls ih =>
      intro rounds acc l n hrounds
      rw [List.length_cons] at hrounds
      rw [h.ahead.cons, joinFrom, gathered]
      cases continues (acc ++ l) with
      | true =>
          rw [if_pos rfl, if_pos rfl, if_pos rfl]
          exact ih rounds _ m (n + 1) (by omega)
      | false =>
          obtain ⟨r, rfl⟩ : ∃ r, rounds = r + 1 := ⟨rounds - 1, by omega⟩
          have hrest := ih r [] m (n + 1) (by omega)
          rw [List.nil_append] at hrest
          rw [if_neg Bool.false_ne_true, if_neg Bool.false_ne_true, if_neg Bool.false_ne_true,
            h.cons, hrest]
          rfl

theorem GatherLoop.join_eq (ls : List Bytes) : join ls.length ls 0 = joinFrom [] 0 ls := by
  cases ls with
  | nil => exact h.nil _ _
  | cons l ls =>
      rw [List.length_cons, h.cons]
      exact h.round_eq ls ls.length [] l 0 le_rfl

end GatherLoop

end Envfile

/-
# `Envfile.Bash.Join` — the held line of `bin/envfile.bash`

`join_continuations` goes over the lines once.  A line that goes on is held
whole, its backslashes included, and the next line is put behind it less one
backslash; what is held at the end is a logical line with the number of the
last line.  The reference looks ahead instead and never holds anything.

The held line less its backslash is what `joinFrom` has gathered: that is all
the two walks have in common, and it is kept by every line (`joinLoop_eq`).
-/
import Envfile.Awk.Files
import Envfile.Sh.Join

namespace Envfile.Bash

/-! ## is_continuation -/

/-- The loop and the pattern are those of `envfile.sh`. -/
def isContinuation (s : Bytes) : Bool := Sh.countBackslashes s.length s % 2 == 1

/-! ## join_continuations -/

/-- The variables of the loop. -/
structure Merge where
  hold : Bytes
  mergedLines : List Bytes
  mergedLinenos : List Nat

/-- The body of the loop, at index `i`. -/
def joinLine (merge : Merge) (i : Nat) (line : Bytes) : Merge :=
  let line := if merge.hold.isEmpty then line else Sh.stripBackslash merge.hold ++ line
  if isContinuation line then { merge with hold := line }
  else
    ⟨[], merge.mergedLines ++ [line], merge.mergedLinenos ++ [i + 1]⟩

/-- The loop from index `i` on. -/
def joinLoop (merge : Merge) (i : Nat) : List Bytes → Merge
  | [] => merge
  | line :: lines => joinLoop (joinLine merge i line) (i + 1) lines

/-- What is held behind the loop is a logical line. -/
def mergeHold (merge : Merge) (total : Nat) : List Bytes × List Nat :=
  if merge.hold.isEmpty then (merge.mergedLines, merge.mergedLinenos)
  else (merge.mergedLines ++ [merge.hold], merge.mergedLinenos ++ [total])

/-- `join_continuations`: `merged_lines` and `merged_linenos`. -/
def joinContinuations (cont : Bool) (lines : List Bytes) : List Bytes × List Nat :=
  if !cont then (lines, (List.range lines.length).map (· + 1))
  else mergeHold (joinLoop ⟨[], [], []⟩ 0 lines) lines.length

/-! ## The loop -/

theorem isContinuation_eq (line : Bytes) : isContinuation line = continues line := by
  rw [isContinuation, Sh.countBackslashes_eq]
  rfl

/-- A line is put behind the held line less its backslash, whether or not there
is one. -/
theorem joinLine_eq (hold : Bytes) (lines : List Bytes) (nums : List Nat) (i : Nat)
    (line : Bytes) :
    joinLine ⟨hold, lines, nums⟩ i line =
      if continues (Sh.stripBackslash hold ++ line) then
        ⟨Sh.stripBackslash hold ++ line, lines, nums⟩
      else ⟨[], lines ++ [Sh.stripBackslash hold ++ line], nums ++ [i + 1]⟩ := by
  have hline : (if hold.isEmpty then line else Sh.stripBackslash hold ++ line) =
      Sh.stripBackslash hold ++ line := by
    cases hold with
    | nil => rfl
    | cons c hold => rfl
  rw [joinLine]
  simp only [hline, isContinuation_eq]

theorem joinLoop_eq : ∀ (ls : List Bytes) (hold : Bytes) (lines : List Bytes) (nums : List Nat)
    (n : Nat), ls ≠ [] →
    mergeHold (joinLoop ⟨hold, lines, nums⟩ n ls) (n + ls.length) =
      (lines ++ (joinFrom (Sh.stripBackslash hold) n ls).map Prod.fst,
        nums ++ (joinFrom (Sh.stripBackslash hold) n ls).map Prod.snd)
  | [], _, _, _, _, h => absurd rfl h
  | [l], hold, lines, nums, n, _ => by
      rw [joinLoop, joinLoop, joinLine_eq, joinFrom]
      cases hcont : continues (Sh.stripBackslash hold ++ l) with
      | true =>
          obtain ⟨t, ht⟩ := eq_concat_of_continues hcont
          rw [if_pos rfl, mergeHold, if_neg (by rw [ht]; simp)]
          rfl
      | false => rfl
  | l :: m :: ls, hold, lines, nums, n, _ => by
      have hlen : n + (l :: m :: ls).length = n + 1 + (m :: ls).length := by
        rw [List.length_cons, Nat.add_right_comm, Nat.add_assoc]
      rw [joinLoop, joinLine_eq, hlen, joinFrom, gathered]
      cases hcont : continues (Sh.stripBackslash hold ++ l) with
      | true =>
          rw [if_pos rfl, joinLoop_eq (m :: ls) _ _ _ _ (List.cons_ne_nil m ls),
            Sh.stripBackslash_of_continues hcont]
          rfl
      | false =>
          rw [if_neg Bool.false_ne_true, joinLoop_eq (m :: ls) _ _ _ _ (List.cons_ne_nil m ls),
            List.append_assoc, List.append_assoc]
          rfl

theorem joinContinuations_eq (lines : List Bytes) :
    joinContinuations true lines =
      ((joinFrom [] 0 lines).map Prod.fst, (joinFrom [] 0 lines).map Prod.snd) := by
  cases lines with
  | nil => rfl
  | cons l ls =>
      have h := joinLoop_eq (l :: ls) [] [] [] 0 (List.cons_ne_nil l ls)
      rw [Nat.zero_add] at h
      exact h

/-! ## The reference -/

/-- The held-line join and the look-ahead join: the same logical lines, and the
same line numbers. -/
theorem merged_eq_joinLoop (lines : List Bytes) :
    (joinContinuations true lines).1 =
        (Awk.joinLoop true lines.length lines 1).map Prod.fst ∧
      (joinContinuations true lines).2 =
        (Awk.joinLoop true lines.length lines 1).map Prod.snd := by
  rw [joinContinuations_eq, Awk.joinLoop_on]
  exact ⟨rfl, rfl⟩

/-- What the reference hands on of a file is what the Bash script makes of the
lines that have been read. -/
theorem handed_eq_zip {knobs : Knobs} (hcont : knobs.contAccept = true) (path f : Bytes)
    {lines : List Bytes} (h : Awk.readLines knobs (.readable path f) = .ok lines)
    (env : Awk.EnvArray) :
    (Awk.normalize knobs (.readable path f) env).2.handed =
      (joinContinuations true lines).1.zip (joinContinuations true lines).2 := by
  rw [Awk.normalize_eq path f h, (Awk.isBody_validate knobs path).handed_run, Meaning.logical,
    if_pos hcont, joinContinuations_eq]
  exact List.zip_of_prod rfl rfl

end Envfile.Bash

/-
# `Envfile.Zig.Join` — joining by the next line alone

The Zig program takes the last backslash off a continued line at once and tests
only the line that it adds; the reference tests what it has gathered.  What is
left behind a backslash that went is an even number of backslashes, so both
tests say the same (`continues_append`).

At the end of the file they differ: a last line that goes on loses its
backslash in the Zig program and keeps it in the reference.  `closed ls` is
`ls` with that backslash gone, and the Zig join of `ls` is the join of
`closed ls` (`joinLines_eq`), as far as the line numbers fit.
-/
import Envfile.Awk.Files
import Envfile.Zig.Program

namespace Envfile.Zig

theorem isContinuation_eq (line : Bytes) : isContinuation line = continues line := rfl

/-- The lines with the last backslash of the last line gone, if that goes on. -/
def closed : List Bytes → List Bytes
  | [] => []
  | [l] => [if continues l then l.dropLast else l]
  | l :: m :: ls => l :: closed (m :: ls)

theorem closed_ne_nil (l : Bytes) (ls : List Bytes) : closed (l :: ls) ≠ [] := by
  cases ls <;> exact List.cons_ne_nil _ _

theorem pending_closed {acc : Bytes} (hacc : continues acc = false) (ls : List Bytes) :
    pending acc (closed ls) = false := by
  rw [pending_eq hacc]
  induction ls with
  | nil => rfl
  | cons l ls ih =>
      cases ls with
      | nil =>
          rw [closed]
          cases hl : continues l with
          | true => exact (continues_dropLast hl).1
          | false => exact hl
      | cons m ls =>
          rw [closed, List.getLast?_cons_of_ne_nil (closed_ne_nil _ _)]
          exact ih

theorem closed_of_settled {ls : List Bytes} (h : ls.getLast?.any continues = false) :
    closed ls = ls := by
  induction ls with
  | nil => rfl
  | cons l ls ih =>
      cases ls with
      | nil =>
          have hl : continues l = false := h
          rw [closed, hl]
          rfl
      | cons m ls =>
          rw [List.getLast?_cons_cons] at h
          rw [closed, ih h]

/-! ## The loop -/

/-- Line numbers as numbers. -/
def numbers (joined : List (Bytes × UInt32)) : List (Bytes × Nat) :=
  joined.map fun p => (p.1, p.2.toNat)

/-- A gathered line, and the join of what is left. -/
def gatherThen (rounds : Nat) (acc : Bytes) (lineno : UInt32) (ls : List Bytes) (i : Nat) :
    Option (List (Bytes × UInt32)) := do
  let joined ← gather acc lineno ls i
  let others ← joinLines rounds joined.2.2.1 joined.2.2.2
  some ((joined.1, joined.2.1) :: others)

theorem toNat_intCast {n : Nat} {m : UInt32} (h : intCast n = some m) : m.toNat = n := by
  rw [intCast] at h
  split at h
  · obtain rfl := Option.some.inj h
    exact UInt32.toNat_ofNat_of_lt' ‹_›
  · cases h

/-- What has been gathered, and the lines after it, as logical lines. -/
def joinAfter (acc : Bytes) (n : Nat) : List Bytes → List (Bytes × Nat)
  | [] => [(acc, n)]
  | l :: ls => joinFrom acc n (closed (l :: ls))

theorem joinFrom_closed {acc : Bytes} (hacc : continues acc = false) (n : Nat) (l : Bytes)
    (ls : List Bytes) :
    joinFrom acc n (closed (l :: ls)) =
      if continues l then joinAfter (acc ++ l.dropLast) (n + 1) ls
      else (acc ++ l, n + 1) :: joinFrom [] (n + 1) (closed ls) := by
  cases ls with
  | nil =>
      have hclosed : closed [l] = [if continues l then l.dropLast else l] := rfl
      rw [hclosed]
      cases continues l <;> rfl
  | cons m ls =>
      rw [closed, joinFrom_cons (closed_ne_nil _ _), gathered, continues_append hacc]
      cases hl : continues l with
      | true =>
          have hne : l ≠ [] := (continues_dropLast hl).2
          rw [if_pos rfl, if_pos rfl, if_pos rfl, List.dropLast_append_of_ne_nil hne]
          rfl
      | false => rfl

theorem numbers_cons (p : Bytes × UInt32) (others : Option (List (Bytes × UInt32))) :
    (others.bind fun ps => some (p :: ps)).map numbers =
      (others.map numbers).map ((p.1, p.2.toNat) :: ·) := by
  cases others <;> rfl

theorem cons_joined {joined : Option (List (Bytes × Nat))} {q : Prop} [Decidable q]
    {ps : List (Bytes × Nat)} {line : Bytes} {m : UInt32} {n : Nat} (hm : m.toNat = n)
    (h : joined = if q then some ps else none) :
    joined.map ((line, m.toNat) :: ·) = if q then some ((line, n) :: ps) else none := by
  rw [h, hm]
  split <;> rfl

/-- Both ways into the loop: at a line, and with lines gathered. -/
theorem join_eq (ls : List Bytes) : ∀ (rounds n : Nat), ls.length ≤ rounds → n < 2 ^ 32 →
    (joinLines rounds ls n).map numbers =
      (if n + ls.length < 2 ^ 32 then some (joinFrom [] n (closed ls)) else none) ∧
    ∀ (acc : Bytes) (lineno : UInt32), lineno.toNat = n → continues acc = false →
      (gatherThen rounds acc lineno ls n).map numbers =
        if n + ls.length < 2 ^ 32 then some (joinAfter acc n ls) else none := by
  induction ls with
  | nil =>
      intro rounds n _ hn
      have hend : joinLines rounds [] n = some [] := by cases rounds <;> rfl
      refine ⟨?_, ?_⟩
      · rw [hend, List.length_nil, Nat.add_zero, if_pos hn]
        rfl
      · intro acc lineno hlineno _
        rw [gatherThen, gather, List.length_nil, Nat.add_zero, if_pos hn, Option.bind_eq_bind,
          Option.bind_some, hend]
        show some [(acc, lineno.toNat)] = some [(acc, n)]
        rw [hlineno]
  | cons l ls ih =>
      intro rounds n hrounds hn
      rw [List.length_cons] at hrounds
      have hlen : n + (l :: ls).length = n + 1 + ls.length := by
        rw [List.length_cons]
        omega
      rw [hlen]
      obtain ⟨rounds, rfl⟩ : ∃ r, rounds = r + 1 := ⟨rounds - 1, by omega⟩
      cases hcast : intCast (n + 1) with
      | none =>
          have hfit : ¬ n + 1 + ls.length < 2 ^ 32 := by
            intro hlt
            rw [intCast, if_pos (by omega)] at hcast
            cases hcast
          refine ⟨?_, ?_⟩
          · rw [if_neg hfit, joinLines, hcast]
            rfl
          · intro acc lineno _ _
            rw [if_neg hfit, gatherThen, gather, hcast]
            rfl
      | some m =>
          have hm := toNat_intCast hcast
          have hn' : n + 1 < 2 ^ 32 := hm ▸ m.toNat_lt
          refine ⟨?_, ?_⟩
          · have hnil : continues [] = false := rfl
            have hfrom := joinFrom_closed hnil n l ls
            obtain ⟨hjoin, hgather⟩ := ih rounds (n + 1) (by omega) hn'
            rw [joinLines, hcast, isContinuation_eq, hfrom]
            cases hl : continues l with
            | true => exact hgather l.dropLast m hm (continues_dropLast hl).1
            | false => exact (numbers_cons (l, m) _).trans (cons_joined hm hjoin)
          · intro acc lineno _ hacc
            have hfrom := joinFrom_closed hacc n l ls
            obtain ⟨hjoin, hgather⟩ := ih (rounds + 1) (n + 1) (by omega) hn'
            rw [joinAfter, gatherThen, gather, hcast, isContinuation_eq, hfrom]
            cases hl : continues l with
            | true =>
                refine hgather (acc ++ l.dropLast) m hm ?_
                rw [continues_append hacc]
                exact (continues_dropLast hl).1
            | false => exact (numbers_cons (acc ++ l, m) _).trans (cons_joined hm hjoin)

theorem joinLines_eq (lines : List Bytes) :
    (joinLines lines.length lines 0).map numbers =
      if lines.length < 2 ^ 32 then some (joinFrom [] 0 (closed lines)) else none := by
  have h := (join_eq lines lines.length 0 le_rfl (by decide)).1
  rwa [Nat.zero_add] at h

/-- Closing the last line shows in the last logical line. -/
theorem joinFrom_closed_eq_iff (lines : List Bytes) :
    joinFrom [] 0 (closed lines) = joinFrom [] 0 lines ↔
      lines.getLast?.any continues = false := by
  constructor
  · intro h
    rw [Bool.eq_false_iff]
    intro hlast
    cases lines with
    | nil => cases hlast
    | cons l ls =>
        obtain ⟨init, q, hjoin, hq⟩ := joinFrom_last [] 0 (List.cons_ne_nil l ls)
        obtain ⟨init', q', hjoin', hq'⟩ := joinFrom_last [] 0 (closed_ne_nil l ls)
        rw [pending_eq rfl, hlast] at hq
        rw [pending_closed rfl] at hq'
        have hlasts := congrArg List.getLast? (hjoin'.symm.trans (h.trans hjoin))
        rw [List.getLast?_concat, List.getLast?_concat] at hlasts
        obtain rfl := Option.some.inj hlasts
        rw [hq] at hq'
        cases hq'
  · intro h
    rw [closed_of_settled h]

/-- The Zig join is the reference's exactly when the line numbers fit and the
last line does not go on. -/
theorem joinLines_eq_awk_iff (lines : List Bytes) :
    (joinLines lines.length lines 0).map numbers =
        some (Awk.joinLoop true lines.length lines 1) ↔
      lines.length < 2 ^ 32 ∧ lines.getLast?.any isContinuation = false := by
  have hcont : isContinuation = continues := funext isContinuation_eq
  rw [joinLines_eq, Awk.joinLoop_on, hcont, ← joinFrom_closed_eq_iff]
  by_cases hfit : lines.length < 2 ^ 32
  · rw [if_pos hfit]
    exact ⟨fun h => ⟨hfit, Option.some.inj h⟩, fun h => congrArg some h.2⟩
  · rw [if_neg hfit]
    exact iff_of_false (by rintro ⟨⟩) fun h => hfit h.1

/-- `A=1` and a backslash at the end of the file: the Zig program has `A=1`, the
reference keeps the backslash. -/
theorem joinLines_ne_awk :
    ¬ (joinLines [ascii "A=1\\"].length [ascii "A=1\\"] 0).map numbers =
      some (Awk.joinLoop true [ascii "A=1\\"].length [ascii "A=1\\"] 1) := by
  decide

end Envfile.Zig

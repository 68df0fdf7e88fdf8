/-
# `Envfile.Awk.Joined` — what the join of the reference keeps

A logical line is made of a block of consecutive physical lines: each of them
but the last is one at which what had been put together so far went on, and
lost one backslash to the next.  The blocks are the whole file, in order, and a
logical line has the number of the last line of its block.

What has been gathered comes from the lines of a block that is not complete
(`Gathers`); this is the invariant of the walk.
-/
import Envfile.Awk.Files

namespace Envfile

/-! ## Blocks of physical lines -/

/-- `text` is put together from the lines of a block. -/
inductive Joined : List Bytes → Bytes → Prop
  | single (l : Bytes) : Joined [l] l
  | more {block : List Bytes} {text : Bytes} (l : Bytes) :
      Joined block text → continues text = true → Joined (block ++ [l]) (text.dropLast ++ l)

/-- The lines after line `n`, cut into blocks: the text of each and the number
of its last line. -/
inductive Blocks : Nat → List Bytes → List (Bytes × Nat) → Prop
  | nil (n : Nat) : Blocks n [] []
  | block {n : Nat} {block ls : List Bytes} {text : Bytes} {out : List (Bytes × Nat)} :
      Joined block text → Blocks (n + block.length) ls out →
      Blocks n (block ++ ls) ((text, n + block.length) :: out)

theorem Joined.length_pos {block : List Bytes} {text : Bytes} (h : Joined block text) :
    0 < block.length := by
  cases h with
  | single l => exact Nat.zero_lt_one
  | more l _ _ =>
      rw [List.length_append]
      exact Nat.lt_add_left _ Nat.zero_lt_one

section Blocks

variable {n : Nat} {ls : List Bytes} {out : List (Bytes × Nat)}

theorem Blocks.lt_of_mem (h : Blocks n ls out) : ∀ q ∈ out, n < q.2 := by
  induction h with
  | nil n => exact fun q hq => absurd hq List.not_mem_nil
  | block hjoined _ ih =>
      have hpos := hjoined.length_pos
      intro q hq
      rcases List.mem_cons.mp hq with rfl | hq
      · exact Nat.lt_add_of_pos_right hpos
      · exact Nat.lt_trans (Nat.lt_add_of_pos_right hpos) (ih q hq)

theorem Blocks.increasing (h : Blocks n ls out) : (out.map Prod.snd).Pairwise (· < ·) := by
  induction h with
  | nil n => exact .nil
  | block _ hrest ih =>
      rw [List.map_cons]
      refine .cons ?_ ih
      intro number hnumber
      obtain ⟨q, hq, rfl⟩ := List.mem_map.mp hnumber
      exact hrest.lt_of_mem q hq

theorem Blocks.getLast (h : Blocks n ls out) :
    (out.map Prod.snd).getLast? = if ls = [] then none else some (n + ls.length) := by
  induction h with
  | nil n => rfl
  | @block n block ls text out hjoined hrest ih =>
      have hne : block ++ ls ≠ [] := List.append_ne_nil_of_left_ne_nil
        (List.ne_nil_of_length_pos hjoined.length_pos) ls
      rw [if_neg hne, List.map_cons, List.getLast?_cons, ih, List.length_append, ← Nat.add_assoc]
      cases ls with
      | nil => rfl
      | cons l ls => rfl

theorem blocks_number (n : Nat) (ls : List Bytes) : Blocks n ls (Lines.number n ls) := by
  induction ls generalizing n with
  | nil => exact .nil n
  | cons l ls ih => exact .block (.single l) (ih (n + 1))

theorem Blocks.length_le (h : Blocks n ls out) : out.length ≤ ls.length := by
  induction h with
  | nil n => exact Nat.le_refl 0
  | block hjoined _ ih =>
      have hpos := hjoined.length_pos
      rw [List.length_cons, List.length_append]
      omega

theorem Blocks.eq_number (h : Blocks n ls out) (hlen : out.length = ls.length) :
    out = Lines.number n ls := by
  induction h with
  | nil n => rfl
  | @block n block ls text out hjoined hrest ih =>
      have hpos := hjoined.length_pos
      have hle := hrest.length_le
      rw [List.length_cons, List.length_append] at hlen
      cases hjoined with
      | single l =>
          rw [ih (by rw [List.length_singleton] at hlen; omega)]
          rfl
      | @more block text l hblock _ =>
          have hpos := hblock.length_pos
          rw [List.length_append, List.length_singleton] at hlen
          omega

end Blocks

/-! ## The walk -/

/-- `acc` is what the lines `done` leave for the next one. -/
def Gathers (done : List Bytes) (acc : Bytes) : Prop :=
  done = [] ∧ acc = [] ∨
    ∃ text, Joined done text ∧ continues text = true ∧ acc = text.dropLast

theorem Gathers.joined {done : List Bytes} {acc : Bytes} (h : Gathers done acc) (l : Bytes) :
    Joined (done ++ [l]) (acc ++ l) := by
  rcases h with ⟨rfl, rfl⟩ | ⟨text, htext, hcont, rfl⟩
  · exact .single l
  · exact htext.more l hcont

theorem joinFrom_blocks : ∀ {ls done : List Bytes} {acc : Bytes} (n : Nat), Gathers done acc →
    ls ≠ [] → Blocks n (done ++ ls) (joinFrom acc (n + done.length) ls)
  | [], _, _, _, _, h => absurd rfl h
  | [l], done, acc, n, hacc, _ => by
      have hblock := Blocks.block (n := n) (hacc.joined l) (.nil _)
      rw [List.append_nil, List.length_append, List.length_singleton, ← Nat.add_assoc] at hblock
      exact hblock
  | l :: m :: ls, done, acc, n, hacc, _ => by
      have hlines : done ++ l :: m :: ls = (done ++ [l]) ++ m :: ls := by
        rw [List.append_assoc, List.singleton_append]
      have hlen : n + done.length + 1 = n + (done ++ [l]).length := by
        rw [List.length_append, List.length_singleton, Nat.add_assoc]
      rw [joinFrom, gathered, hlines, hlen]
      cases hcont : continues (acc ++ l) with
      | true =>
          -- the block is not complete
          exact joinFrom_blocks n (Or.inr ⟨acc ++ l, hacc.joined l, hcont, rfl⟩)
            (List.cons_ne_nil m ls)
      | false =>
          have hrest := joinFrom_blocks (n + (done ++ [l]).length) (Or.inl ⟨rfl, rfl⟩)
            (List.cons_ne_nil m ls)
          exact .block (hacc.joined l) hrest

theorem blocks_joinFrom (ls : List Bytes) : Blocks 0 ls (joinFrom [] 0 ls) := by
  cases ls with
  | nil => exact .nil 0
  | cons l ls => exact joinFrom_blocks 0 (Or.inl ⟨rfl, rfl⟩) (List.cons_ne_nil l ls)

/-- Numbering the logical lines anew keeps their numbers only where nothing has
been joined. -/
theorem number_joinFrom_iff (ls : List Bytes) :
    Lines.number 0 ((joinFrom [] 0 ls).map Prod.fst) = joinFrom [] 0 ls ↔
      ∀ l ∈ ls.dropLast, continues l = false := by
  constructor
  · intro h
    have hblocks := blocks_joinFrom ls
    have hlast := (blocks_number 0 ((joinFrom [] 0 ls).map Prod.fst)).getLast
    rw [h, hblocks.getLast] at hlast
    have hlen : (joinFrom [] 0 ls).length = ls.length := by
      split at hlast
      · rw [‹ls = []›]
        rfl
      · split at hlast
        · cases hlast
        · rw [Option.some_inj, List.length_map] at hlast
          omega
    have hnumber := hblocks.eq_number hlen
    intro l hl
    rw [← Lines.number_fst ls 0, ← hnumber, ← List.map_dropLast] at hl
    obtain ⟨q, hq, rfl⟩ := List.mem_map.mp hl
    exact not_continues_of_mem_dropLast hq
  · intro h
    rw [joinFrom_settled h, Lines.number_fst]

/-! ## The reference -/

namespace Awk

/-- `out` is what the join makes of the lines of a file. -/
structure JoinsTo (lines : List Bytes) (out : List (Bytes × Nat)) : Prop where
  blocks : Blocks 0 lines out
  increasing : (out.map Prod.snd).Pairwise (· < ·)
  last : (out.map Prod.snd).getLast? = if lines = [] then none else some lines.length
  even : ∀ q ∈ out.dropLast, trailing q.1 % 2 = 0
  again : (joinLoop true out.length (out.map Prod.fst) 1).map Prod.fst = out.map Prod.fst

theorem joinLoop_joins (lines : List Bytes) :
    JoinsTo lines (joinLoop true lines.length lines 1) := by
  rw [joinLoop_on]
  have hblocks := blocks_joinFrom lines
  have hsettled : ∀ q ∈ (joinFrom [] 0 lines).dropLast, continues q.1 = false :=
    fun _ => not_continues_of_mem_dropLast
  refine ⟨hblocks, hblocks.increasing, ?_, ?_, ?_⟩
  · rw [hblocks.getLast, Nat.zero_add]
  · intro q hq
    have heven := hsettled q hq
    rw [continues, beq_eq_false_iff_ne] at heven
    omega
  · rw [← List.length_map (f := Prod.fst), joinLoop_on, joinFrom_settled, Lines.number_fst]
    intro l hl
    rw [← List.map_dropLast] at hl
    obtain ⟨q, hq, rfl⟩ := List.mem_map.mp hl
    exact hsettled q hq

/-- Lines of one backslash each: the joins cascade. -/
example : joinLoop true 4 [ascii "\\", ascii "\\", ascii "x", ascii "\\"] 1 =
    [(ascii "x", 3), (ascii "\\", 4)] := by
  decide

end Awk

end Envfile

/-
# `Envfile.Lib.Buffer` — fixed buffers with checked accesses

A program over fixed buffers and unsigned numbers, as it would run if every
access, every subtraction and the number of rounds of every loop were checked.
That it does not fail then is what its author has to promise where nothing is
checked.

A buffer has all its cells from the start; what is in them at first is
arbitrary.  The part in use is `upTo`, and the operations are described by what
they do to it:

* `exists_get`: one more cell of the part in use;
* `exists_store`: what is stored behind the part in use is added to it;
* `load_eq`: a part of the part in use.
-/
import Mathlib.Data.List.Basic

namespace Buffer

/-- What a check finds. -/
inductive Fault where
  /-- an access that is not within its buffer -/
  | overrun
  /-- a difference of unsigned numbers that is negative -/
  | wrapped
  /-- a loop that goes on for longer than it may -/
  | endless
deriving DecidableEq, Repr

/-- A program that is checked. -/
abbrev Checked (α : Type) := Except Fault α

/-- An unsigned difference. -/
def sub (a b : Nat) : Checked Nat := if b ≤ a then .ok (a - b) else .error .wrapped

theorem sub_ok {a b : Nat} (h : b ≤ a) : sub a b = .ok (a - b) := if_pos h

theorem sub_succ (n : Nat) : sub (n + 1) 1 = .ok n := sub_ok (Nat.le_add_left 1 n)

theorem bind_ok {α β : Type} (a : α) (f : α → Checked β) : ((.ok a : Checked α) >>= f) = f a := rfl

end Buffer

/-- A buffer of `cap` cells. -/
structure Buffer (α : Type) (cap : Nat) where
  cells : List α
  length_eq : cells.length = cap

namespace Buffer

variable {α : Type} {cap : Nat}

/-- The first `n` cells. -/
def upTo (b : Buffer α cap) (n : Nat) : List α := b.cells.take n

/-- The cell at `i`. -/
def get (b : Buffer α cap) (i : Nat) : Checked α :=
  match b.cells[i]? with
  | some a => .ok a
  | none => .error .overrun

/-- The `n` cells at `off`. -/
def load (b : Buffer α cap) (off n : Nat) : Checked (List α) :=
  if off + n ≤ cap then .ok ((b.cells.drop off).take n) else .error .overrun

/-- The buffer with `src` copied to `off`. -/
def store (b : Buffer α cap) (off : Nat) (src : List α) : Checked (Buffer α cap) :=
  if h : off + src.length ≤ cap then
    .ok {
      cells := b.cells.take off ++ (src ++ b.cells.drop (off + src.length))
      length_eq := by
        have := b.length_eq
        rw [List.length_append, List.length_append, List.length_take, List.length_drop]
        omega }
  else .error .overrun

section

variable (b : Buffer α cap) {off i n : Nat}

@[simp] theorem upTo_zero : b.upTo 0 = [] := rfl

theorem length_upTo (h : n ≤ cap) : (b.upTo n).length = n := by
  rw [upTo, List.length_take, b.length_eq]
  exact Nat.min_eq_left h

theorem exists_get (h : i < cap) :
    ∃ a, b.get i = .ok a ∧ b.cells[i]? = some a ∧ b.upTo (i + 1) = b.upTo i ++ [a] := by
  have hlt : i < b.cells.length := by rw [b.length_eq]; exact h
  have hget : b.cells[i]? = some b.cells[i] := List.getElem?_eq_getElem hlt
  refine ⟨b.cells[i], ?_, hget, ?_⟩
  · rw [get, hget]
  · rw [upTo, upTo, List.take_add_one, hget, Option.toList_some]

theorem load_eq {m : Nat} (hn : n ≤ cap) (h : off + m ≤ n) :
    b.load off m = .ok (((b.upTo n).drop off).take m) := by
  rw [load, if_pos (Nat.le_trans h hn), upTo, List.drop_take, List.take_take, Nat.min_eq_left]
  omega

theorem exists_store {src : List α} (h : off + src.length ≤ cap) :
    ∃ c, b.store off src = .ok c ∧ c.upTo (off + src.length) = b.upTo off ++ src := by
  rw [store, dif_pos h]
  refine ⟨_, rfl, ?_⟩
  have hlen : (b.upTo off ++ src).length = off + src.length := by
    rw [List.length_append, length_upTo b (by omega)]
  show (b.upTo off ++ (src ++ b.cells.drop (off + src.length))).take (off + src.length) = _
  rw [← List.append_assoc]
  exact List.take_left' hlen

end

end Buffer

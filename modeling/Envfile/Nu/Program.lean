/-
# `Envfile.Nu.Program` — `subst_value` of `bin/envfile.nu`

On ASCII strings the positions of `str index-of` and `str substring` are byte
positions.  `get -o` yields null for an absent column, and `is-empty` holds of
null and of the empty string alike, so a name that is bound to the empty string
is reported.

The pattern of a bare name ends in `(?P<rest>.*)$`, and `.` matches every
character but a newline: with a newline anywhere behind it, `$NAME` is left as
it is.  The script hands no such value to `subst_value`, since a line has no
newline.
-/
import Envfile.Tokenization
import Mathlib.Data.List.AList

namespace Envfile.Nu

/-- `env_map`, a record of strings. -/
abbrev EnvMap := AList fun _ : Bytes => Bytes

/-- `str index-of` for one character; `none` is -1. -/
def indexOf (s : Bytes) (c : UInt8) : Option Nat := s.idxOf? c

/-- `parse --regex '^(?P<name>[A-Za-z_][A-Za-z0-9_]*)(?P<rest>.*)$'`. -/
def parseName (s : Bytes) : Option (Bytes × Bytes) :=
  let name := s.takeWhile isNameRest
  let rest := s.dropWhile isNameRest
  if s.head?.any isNameStart && !rest.contains Byte.nl then some (name, rest) else none

/-- `if ($got | is-empty) … else …`. -/
def resolve (env : EnvMap) (path : Bytes) (lineno : Nat) (name : Bytes) : Bytes × Out Int64 :=
  let got := env.lookup name
  if got.getD [] = [] then ([], Out.diag ⟨.unboundRef, some name, path, some lineno⟩)
  else (got.getD [], 0)

/-- The loop of `subst_value`: what it goes on to append to `out`.  Each round
but the last takes at least the `$`. -/
def substLoop (env : EnvMap) (path : Bytes) (lineno : Nat) : Nat → Bytes → Bytes × Out Int64
  | 0, _ => ([], 0)
  | rounds + 1, rest =>
    match indexOf rest Byte.dollar with
    | none => (rest, 0)
    | some pos =>
      let before := rest.take pos
      if pos + 1 ≥ rest.length then (before ++ [Byte.dollar], 0)
      else
        let after := rest.drop (pos + 1)
        if after.head? == some Byte.lbrace then
          let inner := after.drop 1
          match indexOf inner Byte.rbrace with
          | none => (before ++ Byte.dollar :: after, 0)
          | some close =>
            let got := resolve env path lineno (inner.take close)
            let tail := substLoop env path lineno rounds (inner.drop (close + 1))
            (before ++ got.1 ++ tail.1, got.2 + tail.2)
        else
          match parseName after with
          | none =>
            let tail := substLoop env path lineno rounds after
            (before ++ Byte.dollar :: tail.1, tail.2)
          | some (name, remain) =>
            let got := resolve env path lineno name
            let tail := substLoop env path lineno rounds remain
            (before ++ got.1 ++ tail.1, got.2 + tail.2)

def substValue (path : Bytes) (lineno : Nat) (value : Bytes) (env : EnvMap) : Bytes × Out Int64 :=
  substLoop env path lineno (value.length + 1) value

/-! ## Piece by piece -/

/-- The pattern misses a bare name with a newline behind it. -/
def missed : Piece → List Piece → Bool
  | .bare _, ps => (ps.flatMap Piece.text).contains Byte.nl
  | _, _ => false

/-- The pieces of a value, each with whether it is missed. -/
def marked : List Piece → List (Piece × Bool)
  | [] => []
  | p :: ps => (p, missed p ps) :: marked ps

section Subst

variable (lookup : Bytes → Option Bytes)

/-- The names that are not bound to the empty string. -/
def nonempty (name : Bytes) : Option Bytes := (lookup name).filter (· ≠ [])

def written (q : Piece × Bool) : Bytes := if q.2 then q.1.text else q.1.value lookup

def reported (q : Piece × Bool) : Option Bytes :=
  if q.2 then none else q.1.unbound (nonempty lookup)

end Subst

section Loop

variable (env : EnvMap) (path : Bytes) (lineno : Nat)

theorem resolve_eq (name : Bytes) :
    resolve env path lineno name =
      ((env.lookup name).getD [],
        Out.unbound path lineno
          (if nonempty env.lookup name = none then some name else none).toList) := by
  have hempty : (env.lookup name).getD [] = [] ↔ nonempty env.lookup name = none := by
    rw [nonempty]
    cases env.lookup name with
    | none => exact iff_of_true rfl rfl
    | some value => simp
  rw [resolve]
  simp only [hempty]
  split
  · rw [hempty.mpr ‹_›, Option.toList_some, Out.unbound_singleton]
  · rfl

/-- What a round puts behind the text before a `$`, `rest` being behind it. -/
def dollarStep (rounds : Nat) (rest : Bytes) : Bytes × Out Int64 :=
  if rest = [] then ([Byte.dollar], 0)
  else if rest.head? == some Byte.lbrace then
    match indexOf (rest.drop 1) Byte.rbrace with
    | none => (Byte.dollar :: rest, 0)
    | some close =>
      let got := resolve env path lineno ((rest.drop 1).take close)
      let tail := substLoop env path lineno rounds ((rest.drop 1).drop (close + 1))
      (got.1 ++ tail.1, got.2 + tail.2)
  else
    match parseName rest with
    | none =>
      let tail := substLoop env path lineno rounds rest
      (Byte.dollar :: tail.1, tail.2)
    | some (name, remain) =>
      let got := resolve env path lineno name
      let tail := substLoop env path lineno rounds remain
      (got.1 ++ tail.1, got.2 + tail.2)

theorem substLoop_dollar {u : Bytes} (hu : Byte.dollar ∉ u) (rounds : Nat) (rest : Bytes) :
    substLoop env path lineno (rounds + 1) (u ++ Byte.dollar :: rest) =
      (u ++ (dollarStep env path lineno rounds rest).1,
        (dollarStep env path lineno rounds rest).2) := by
  have hfind : indexOf (u ++ Byte.dollar :: rest) Byte.dollar = some u.length :=
    memchr_append hu rest
  have hend : u.length + 1 ≥ (u ++ Byte.dollar :: rest).length ↔ rest = [] := by
    rw [List.length_append, List.length_cons, ← List.length_eq_zero_iff]
    omega
  rw [substLoop, dollarStep, hfind]
  simp only [take_before, drop_after, hend]
  split
  · rfl
  split
  · cases indexOf (rest.drop 1) Byte.rbrace with
    | none => rfl
    | some close => simp only [List.append_assoc]
  · cases parseName rest with
    | none => rfl
    | some p => simp only [List.append_assoc]

theorem substLoop_head (rounds : Nat) (rest : Bytes) :
    substLoop env path lineno (rounds + 1) (Byte.dollar :: rest) =
      dollarStep env path lineno rounds rest :=
  substLoop_dollar env path lineno List.not_mem_nil rounds rest

theorem substLoop_before {u : Bytes} (hu : Byte.dollar ∉ u) (rounds : Nat) (s : Bytes) :
    substLoop env path lineno (rounds + 1) (u ++ s) =
      (u ++ (substLoop env path lineno (rounds + 1) s).1,
        (substLoop env path lineno (rounds + 1) s).2) := by
  rcases split_first Byte.dollar s with hs | ⟨v, rest, rfl, hv⟩
  · have hnone : ∀ t : Bytes, Byte.dollar ∉ t →
        substLoop env path lineno (rounds + 1) t = (t, 0) := by
      intro t ht
      have hfind : indexOf t Byte.dollar = none := memchr_eq_none.mpr ht
      rw [substLoop, hfind]
    rw [hnone s hs, hnone (u ++ s) (by simp [hu, hs])]
  · have huv : Byte.dollar ∉ u ++ v := by simp [hu, hv]
    rw [← List.append_assoc, substLoop_dollar env path lineno huv,
      substLoop_dollar env path lineno hv, List.append_assoc]

/-! ### The pieces -/

theorem head?_of_isName {name : Bytes} (hname : isName name = true) (rest : Bytes) :
    ∃ c, (name ++ rest).head? = some c ∧ isNameStart c = true := by
  cases name with
  | nil => cases hname
  | cons c name =>
      rw [isName, Bool.and_eq_true] at hname
      exact ⟨c, rfl, hname.1⟩

theorem parseName_name {name rest : Bytes} (hname : isName name = true)
    (hstop : rest.head?.any isNameRest = false) :
    parseName (name ++ rest) = if rest.contains Byte.nl then none else some (name, rest) := by
  have hrest := isNameRest_of_isName hname
  obtain ⟨c, hhead, hstart⟩ := head?_of_isName hname rest
  rw [parseName, hhead]
  simp only [takeWhile_name hrest hstop, dropWhile_name hrest hstop, Option.any_some, hstart,
    Bool.true_and]
  cases rest.contains Byte.nl <;> rfl

theorem parseName_of_startsNoRef {s : Bytes} (hs : StartsNoRef s) : parseName s = none := by
  rw [parseName, hs.2]
  rfl

theorem dollarStep_bare {name rest : Bytes} (hname : isName name = true)
    (hstop : rest.head?.any isNameRest = false) (rounds : Nat) :
    dollarStep env path lineno rounds (name ++ rest) =
      if rest.contains Byte.nl then
        (Byte.dollar :: (substLoop env path lineno rounds (name ++ rest)).1,
          (substLoop env path lineno rounds (name ++ rest)).2)
      else
        ((resolve env path lineno name).1 ++ (substLoop env path lineno rounds rest).1,
          (resolve env path lineno name).2 + (substLoop env path lineno rounds rest).2) := by
  obtain ⟨c, hhead, hstart⟩ := head?_of_isName hname rest
  have hne : name ++ rest ≠ [] := by
    intro hnil
    rw [hnil] at hhead
    cases hhead
  have hbrace : ¬ ((name ++ rest).head? == some Byte.lbrace) = true := by
    rw [hhead, beq_iff_eq, Option.some_inj]
    rintro rfl
    cases hstart
  rw [dollarStep, if_neg hne, if_neg hbrace, parseName_name hname hstop]
  cases rest.contains Byte.nl <;> rfl

theorem dollarStep_braced {name : Bytes} (hname : Byte.rbrace ∉ name) (rounds : Nat)
    (rest : Bytes) :
    dollarStep env path lineno rounds (Byte.lbrace :: (name ++ Byte.rbrace :: rest)) =
      ((resolve env path lineno name).1 ++ (substLoop env path lineno rounds rest).1,
        (resolve env path lineno name).2 + (substLoop env path lineno rounds rest).2) := by
  have hfind : indexOf (name ++ Byte.rbrace :: rest) Byte.rbrace = some name.length :=
    memchr_append hname rest
  rw [dollarStep, if_neg (List.cons_ne_nil _ _), List.head?_cons, if_pos (beq_self_eq_true _)]
  simp only [List.drop_succ_cons, List.drop_zero, hfind, take_before, drop_after]

theorem dollarStep_unclosed {s : Bytes} (hs : Byte.rbrace ∉ s) (rounds : Nat) :
    dollarStep env path lineno rounds (Byte.lbrace :: s) =
      (Byte.dollar :: Byte.lbrace :: s, 0) := by
  have hfind : indexOf s Byte.rbrace = none := memchr_eq_none.mpr hs
  rw [dollarStep, if_neg (List.cons_ne_nil _ _), List.head?_cons, if_pos (beq_self_eq_true _)]
  simp only [List.drop_succ_cons, List.drop_zero, hfind]

theorem marked_literals (s : Bytes) :
    (marked (s.map .literal)).flatMap (written env.lookup) = s ∧
      (marked (s.map .literal)).filterMap (reported env.lookup) = [] := by
  induction s with
  | nil => exact ⟨rfl, rfl⟩
  | cons c s ih =>
      rw [List.map_cons, marked, List.flatMap_cons, ih.1]
      exact ⟨rfl, ih.2⟩

/-- What the loop makes of pieces. -/
def expandMarked (qs : List (Piece × Bool)) : Bytes × Out Int64 :=
  (qs.flatMap (written env.lookup), Out.unbound path lineno (qs.filterMap (reported env.lookup)))

theorem expandMarked_cons (q : Piece × Bool) (qs : List (Piece × Bool)) :
    expandMarked env path lineno (q :: qs) =
      (written env.lookup q ++ (expandMarked env path lineno qs).1,
        Out.unbound path lineno (reported env.lookup q).toList +
          (expandMarked env path lineno qs).2) := by
  rw [expandMarked, expandMarked, List.flatMap_cons, ← Out.unbound_append, List.filterMap_cons]
  cases reported env.lookup q <;> rfl

theorem substLoop_eq {val : Bytes} {ps : List Piece} (h : Tokenization val ps) :
    ∀ {rounds : Nat}, val.length < rounds →
      substLoop env path lineno rounds val = expandMarked env path lineno (marked ps) := by
  induction h with
  | nil =>
      rintro (_ | rounds) hrounds
      · cases hrounds
      · rfl
  | @byte c s ps hc hrest ih =>
      rintro (_ | rounds) hrounds
      · cases hrounds
      rw [List.length_cons] at hrounds
      rw [← List.singleton_append, substLoop_before env path lineno (by simpa using hc.symm),
        ih (by omega), marked, expandMarked_cons]
      exact Prod.ext rfl (zero_add _).symm
  | @dollar s ps hs hrest ih =>
      rintro (_ | rounds) hrounds
      · cases hrounds
      rw [List.length_cons] at hrounds
      rw [substLoop_head, dollarStep, marked, expandMarked_cons]
      split
      · -- a `$` at the end
        subst s
        cases hrest
        rfl
      · rw [if_neg (by simpa using hs.1), parseName_of_startsNoRef hs]
        simp only [ih (show s.length < rounds by omega)]
        exact Prod.ext rfl (zero_add _).symm
  | @bare name rest ps hname hstop hrest ih =>
      rintro (_ | rounds) hrounds
      · cases hrounds
      rw [List.length_cons, List.length_append] at hrounds
      rw [substLoop_head, dollarStep_bare env path lineno hname hstop, marked, expandMarked_cons,
        missed, hrest.text, written, reported]
      cases rest.contains Byte.nl with
      | true =>
          -- what is missed is text to the next round
          have hdollar : Byte.dollar ∉ name := fun h =>
            absurd (isNameRest_of_isName hname _ h) (by decide)
          obtain ⟨r, rfl⟩ : ∃ r, rounds = r + 1 := ⟨rounds - 1, by omega⟩
          simp only [if_true, substLoop_before env path lineno hdollar,
            ih (show rest.length < r + 1 by omega)]
          exact Prod.ext rfl (zero_add _).symm
      | false =>
          have htail := ih (show rest.length < rounds by omega)
          simp only [Bool.false_eq_true, if_false, htail, resolve_eq]
          rfl
  | @braced name rest ps hname hrest ih =>
      rintro (_ | rounds) hrounds
      · cases hrounds
      rw [List.length_cons, List.length_cons, List.length_append, List.length_cons] at hrounds
      rw [substLoop_head, dollarStep_braced env path lineno hname, marked, expandMarked_cons,
        ih (show rest.length < rounds by omega), resolve_eq]
      rfl
  | @unclosed s hs =>
      rintro (_ | rounds) hrounds
      · cases hrounds
      obtain ⟨htext, hnames⟩ := marked_literals env (Byte.dollar :: Byte.lbrace :: s)
      rw [substLoop_head, dollarStep_unclosed env path lineno hs, expandMarked, htext, hnames]
      rfl

end Loop

end Envfile.Nu

/-
# `Envfile.Tokenization` — the pieces of a value, declared

`Envfile.Substitution` reads a value from the left with a function.  Here the
same reading is a relation between a value and its pieces, one rule for each
sentence of `docs/APPLY.md`: a name is the longest match, a brace closes at
the first `}`, a `$` that starts neither form is literal, and an unclosed `${`
makes the rest literal.

The rules leave no choice and never get stuck (`Tokenization.unique`,
`exists_tokenization`), and the texts of the pieces are the value again
(`Tokenization.text`).  What the pieces resolve to is what `subst` computes.
-/
import Envfile.Substitution

namespace Envfile

/-- A piece of a value: a literal byte, `$NAME` or `${NAME}`. -/
inductive Piece where
  | literal (c : UInt8)
  | bare (name : Bytes)
  | braced (name : Bytes)
deriving DecidableEq, Repr

namespace Piece

/-- A piece as it is written. -/
def text : Piece → Bytes
  | literal c => [c]
  | bare name => Byte.dollar :: name
  | braced name => Byte.dollar :: Byte.lbrace :: (name ++ [Byte.rbrace])

/-- What a piece stands for: nothing, where its name is unbound. -/
def value (lookup : Bytes → Option Bytes) : Piece → Bytes
  | literal c => [c]
  | bare name | braced name => (lookup name).getD []

/-- The name of a reference that is unbound. -/
def unbound (lookup : Bytes → Option Bytes) : Piece → Option Bytes
  | literal _ => none
  | bare name | braced name => if lookup name = none then some name else none

def token : Piece → Token
  | literal c => .byte c
  | bare name | braced name => .ref name

end Piece

/-- A `$` before `s` starts no reference. -/
def StartsNoRef (s : Bytes) : Prop :=
  s.head? ≠ some Byte.lbrace ∧ s.head?.any isNameStart = false

/-- The pieces of a value, from the left. -/
inductive Tokenization : Bytes → List Piece → Prop where
  | nil : Tokenization [] []
  | byte {c : UInt8} {s : Bytes} {ps : List Piece} (hc : c ≠ Byte.dollar)
      (h : Tokenization s ps) : Tokenization (c :: s) (.literal c :: ps)
  | dollar {s : Bytes} {ps : List Piece} (hs : StartsNoRef s) (h : Tokenization s ps) :
      Tokenization (Byte.dollar :: s) (.literal Byte.dollar :: ps)
  | bare {name rest : Bytes} {ps : List Piece} (hname : isName name = true)
      (hstop : rest.head?.any isNameRest = false) (h : Tokenization rest ps) :
      Tokenization (Byte.dollar :: (name ++ rest)) (.bare name :: ps)
  | braced {name rest : Bytes} {ps : List Piece} (hname : Byte.rbrace ∉ name)
      (h : Tokenization rest ps) :
      Tokenization (Byte.dollar :: Byte.lbrace :: (name ++ Byte.rbrace :: rest))
        (.braced name :: ps)
  | unclosed {s : Bytes} (hs : Byte.rbrace ∉ s) :
      Tokenization (Byte.dollar :: Byte.lbrace :: s)
        ((Byte.dollar :: Byte.lbrace :: s).map .literal)

/-! ## What follows a `$` -/

section Dollar

variable {name rest s : Bytes}

theorem takeWhile_name (hname : ∀ c ∈ name, isNameRest c = true)
    (hstop : rest.head?.any isNameRest = false) :
    (name ++ rest).takeWhile isNameRest = name := by
  have htake : rest.takeWhile isNameRest = [] := by
    cases rest with
    | nil => rfl
    | cons d rest => exact List.takeWhile_cons_of_neg (by simpa using hstop)
  rw [List.takeWhile_append_of_pos hname, htake, List.append_nil]

theorem dropWhile_name (hname : ∀ c ∈ name, isNameRest c = true)
    (hstop : rest.head?.any isNameRest = false) :
    (name ++ rest).dropWhile isNameRest = rest := by
  rw [List.dropWhile_append_of_pos hname]
  cases rest with
  | nil => rfl
  | cons d rest => exact List.dropWhile_cons_of_neg (by simpa using hstop)

theorem afterDollar_bare (hname : isName name = true)
    (hstop : rest.head?.any isNameRest = false) :
    afterDollar (name ++ rest) = .ref name rest := by
  cases name with
  | nil => cases hname
  | cons c name =>
      rw [isName, Bool.and_eq_true, List.all_eq_true] at hname
      have hbrace : c ≠ Byte.lbrace := by
        rintro rfl
        exact absurd hname.1 (by decide)
      rw [List.cons_append, afterDollar, if_neg hbrace, if_pos hname.1,
        takeWhile_name hname.2 hstop, dropWhile_name hname.2 hstop]

theorem afterDollar_braced (hname : Byte.rbrace ∉ name) :
    afterDollar (Byte.lbrace :: (name ++ Byte.rbrace :: rest)) = .ref name rest := by
  rw [afterDollar, if_pos rfl, memchr_append hname]
  simp only [take_before, drop_after]

theorem afterDollar_unclosed (hs : Byte.rbrace ∉ s) :
    afterDollar (Byte.lbrace :: s) = .unclosed := by
  rw [afterDollar, if_pos rfl, memchr_eq_none.mpr hs]

theorem afterDollar_literal (hs : StartsNoRef s) : afterDollar s = .literal := by
  cases s with
  | nil => rfl
  | cons c s =>
      rw [afterDollar, if_neg (fun hc => hs.1 (congrArg some hc)),
        if_neg (Bool.not_eq_true _ ▸ hs.2)]

theorem dollar_shape (s : Bytes) :
    StartsNoRef s ∨
    (∃ name rest, s = name ++ rest ∧ isName name = true ∧ rest.head?.any isNameRest = false) ∨
    (∃ name rest, s = Byte.lbrace :: (name ++ Byte.rbrace :: rest) ∧ Byte.rbrace ∉ name) ∨
    ∃ s', s = Byte.lbrace :: s' ∧ Byte.rbrace ∉ s' := by
  cases s with
  | nil => exact Or.inl ⟨by rintro ⟨⟩, rfl⟩
  | cons c s =>
      by_cases hbrace : c = Byte.lbrace
      · subst hbrace
        rcases split_first Byte.rbrace s with h | ⟨name, rest, rfl, hname⟩
        · exact Or.inr (Or.inr (Or.inr ⟨s, rfl, h⟩))
        · exact Or.inr (Or.inr (Or.inl ⟨name, rest, rfl, hname⟩))
      cases hstart : isNameStart c with
      | false => exact Or.inl ⟨fun h => hbrace (Option.some.inj h), hstart⟩
      | true =>
          refine Or.inr (Or.inl ⟨c :: s.takeWhile isNameRest, s.dropWhile isNameRest, ?_, ?_, ?_⟩)
          · rw [List.cons_append, List.takeWhile_append_dropWhile]
          · rw [isName, hstart, Bool.true_and, List.all_eq_true]
            exact fun _ hd => List.mem_takeWhile_imp hd
          · cases hrest : s.dropWhile isNameRest with
            | nil => rfl
            | cons d rest =>
                have hd := List.head?_dropWhile_not isNameRest s
                rw [hrest] at hd
                exact hd

end Dollar

/-! ## One reading, and only one -/

theorem exists_tokenization (val : Bytes) : ∃ ps, Tokenization val ps := by
  induction hn : val.length using Nat.strong_induction_on generalizing val with
  | _ n ih =>
      cases val with
      | nil => exact ⟨[], .nil⟩
      | cons c s =>
          rw [List.length_cons] at hn
          have hrest : ∀ rest : Bytes, rest.length ≤ s.length → ∃ ps, Tokenization rest ps :=
            fun rest hle => ih rest.length (by omega) rest rfl
          by_cases hc : c = Byte.dollar
          · subst hc
            rcases dollar_shape s with hs | ⟨name, rest, rfl, hname, hstop⟩ |
              ⟨name, rest, rfl, hname⟩ | ⟨s', rfl, hs⟩
            · obtain ⟨ps, h⟩ := hrest s le_rfl
              exact ⟨_, .dollar hs h⟩
            · obtain ⟨ps, h⟩ := hrest rest (by simp)
              exact ⟨_, .bare hname hstop h⟩
            · obtain ⟨ps, h⟩ := hrest rest (by simp; omega)
              exact ⟨_, .braced hname h⟩
            · exact ⟨_, .unclosed hs⟩
          · obtain ⟨ps, h⟩ := hrest s le_rfl
            exact ⟨_, .byte hc h⟩

namespace Tokenization

variable {val : Bytes} {ps ps' : List Piece}

theorem cons_inv {c : UInt8} {s : Bytes} (h : Tokenization (c :: s) ps) :
    if c = Byte.dollar then
      match afterDollar s with
      | .ref name rest => ∃ ps', Tokenization rest ps' ∧
          ps = (if s.head? = some Byte.lbrace then .braced name else .bare name) :: ps'
      | .unclosed => ps = (c :: s).map .literal
      | .literal => ∃ ps', Tokenization s ps' ∧ ps = .literal c :: ps'
    else ∃ ps', Tokenization s ps' ∧ ps = .literal c :: ps' := by
  generalize hval : c :: s = val at h
  cases h with
  | nil => cases hval
  | byte hc h =>
      obtain ⟨rfl, rfl⟩ := List.cons.inj hval
      rw [if_neg hc]
      exact ⟨_, h, rfl⟩
  | dollar hs h =>
      obtain ⟨rfl, rfl⟩ := List.cons.inj hval
      rw [if_pos rfl, afterDollar_literal hs]
      exact ⟨_, h, rfl⟩
  | bare hname hstop h =>
      obtain ⟨rfl, rfl⟩ := List.cons.inj hval
      rw [if_pos rfl, afterDollar_bare hname hstop]
      refine ⟨_, h, ?_⟩
      rw [if_neg]
      intro hhead
      rw [List.head?_append_of_ne_nil _ (ne_nil_of_isName hname)] at hhead
      have := isNameRest_of_isName hname _ (List.mem_of_mem_head? hhead)
      exact absurd this (by decide)
  | braced hname h =>
      obtain ⟨rfl, rfl⟩ := List.cons.inj hval
      rw [if_pos rfl, afterDollar_braced hname]
      exact ⟨_, h, rfl⟩
  | unclosed hs =>
      obtain ⟨rfl, rfl⟩ := List.cons.inj hval
      rw [if_pos rfl, afterDollar_unclosed hs]

/-- The rules leave no choice. -/
theorem unique (h : Tokenization val ps) (h' : Tokenization val ps') : ps = ps' := by
  induction h generalizing ps' with
  | nil =>
      cases h' with
      | nil => rfl
  | byte hc _ ih =>
      have hinv := h'.cons_inv
      rw [if_neg hc] at hinv
      obtain ⟨ps', hrest, rfl⟩ := hinv
      rw [ih hrest]
  | dollar hs _ ih =>
      have hinv := h'.cons_inv
      rw [if_pos rfl, afterDollar_literal hs] at hinv
      obtain ⟨ps', hrest, rfl⟩ := hinv
      rw [ih hrest]
  | bare hname hstop h ih =>
      have hinv := h'.cons_inv
      have hinv₀ := (Tokenization.bare hname hstop h).cons_inv
      rw [if_pos rfl, afterDollar_bare hname hstop] at hinv hinv₀
      obtain ⟨_, _, heq⟩ := hinv₀
      obtain ⟨ps', hrest, rfl⟩ := hinv
      rw [ih hrest, ← (List.cons.inj heq).1]
  | braced hname _ ih =>
      have hinv := h'.cons_inv
      rw [if_pos rfl, afterDollar_braced hname] at hinv
      obtain ⟨ps', hrest, rfl⟩ := hinv
      rw [ih hrest]
      rfl
  | unclosed hs =>
      have hinv := h'.cons_inv
      rw [if_pos rfl, afterDollar_unclosed hs] at hinv
      exact hinv.symm

/-- Nothing of the value is lost. -/
theorem text (h : Tokenization val ps) : ps.flatMap Piece.text = val := by
  have hliteral : ∀ s : Bytes, (s.map Piece.literal).flatMap Piece.text = s := by
    intro s
    rw [List.flatMap_map]
    exact List.flatMap_singleton' s
  induction h with
  | nil => rfl
  | byte _ _ ih => rw [List.flatMap_cons, ih]; rfl
  | dollar _ _ ih => rw [List.flatMap_cons, ih]; rfl
  | bare _ _ _ ih => rw [List.flatMap_cons, ih]; rfl
  | braced _ _ ih => rw [List.flatMap_cons, ih, Piece.text]; simp
  | unclosed => exact hliteral _

/-- The function that reads a value follows the rules. -/
theorem tokens_eq (h : Tokenization val ps) : tokens val = ps.map Piece.token := by
  induction h with
  | nil => rfl
  | byte hc _ ih => rw [tokens_cons, if_neg hc, ih]; rfl
  | dollar hs _ ih => rw [tokens_cons, if_pos rfl, afterDollar_literal hs, ih]; rfl
  | bare hname hstop _ ih =>
      rw [tokens_cons, if_pos rfl, afterDollar_bare hname hstop]
      simp only [ih]
      rfl
  | braced hname _ ih =>
      rw [tokens_cons, if_pos rfl, afterDollar_braced hname]
      simp only [ih]
      rfl
  | unclosed hs =>
      rw [tokens_cons, if_pos rfl, afterDollar_unclosed hs, List.map_map]
      rfl

end Tokenization

/-! ## What the pieces resolve to -/

theorem expand_token (lookup : Bytes → Option Bytes) (ps : List Piece) :
    expand lookup (ps.map Piece.token) =
      (ps.flatMap (Piece.value lookup), ps.filterMap (Piece.unbound lookup)) := by
  induction ps with
  | nil => rfl
  | cons p ps ih =>
      have href : ∀ name, p = .bare name ∨ p = .braced name →
          expand lookup (.ref name :: ps.map Piece.token) =
            ((p :: ps).flatMap (Piece.value lookup),
              (p :: ps).filterMap (Piece.unbound lookup)) := by
        intro name hp
        have hvalue : p.value lookup = (lookup name).getD [] := by rcases hp with rfl | rfl <;> rfl
        have hunbound : p.unbound lookup = if lookup name = none then some name else none := by
          rcases hp with rfl | rfl <;> rfl
        rw [expand, ih, List.flatMap_cons, hvalue, List.filterMap_cons, hunbound]
        cases lookup name <;> rfl
      cases p with
      | literal c =>
          rw [List.map_cons, Piece.token, expand, ih]
          rfl
      | bare name => exact href name (Or.inl rfl)
      | braced name => exact href name (Or.inr rfl)

theorem subst_of_tokenization {val : Bytes} {ps : List Piece} (h : Tokenization val ps)
    (lookup : Bytes → Option Bytes) :
    subst lookup val =
      (ps.flatMap (Piece.value lookup), ps.filterMap (Piece.unbound lookup)) := by
  rw [subst, h.tokens_eq, expand_token]

end Envfile

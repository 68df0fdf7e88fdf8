/-
# `Envfile.Substitution` — what a value means where references are resolved

A value is a sequence of literal bytes and references.  `tokens` reads it from
the left: a `$` before a name starts the reference `$NAME`, the longest match;
`${` starts one that goes up to the first `}`; without a `}` it makes the rest
of the value literal; any other `$` is literal.

`subst` resolves the references in an environment, which is any partial map
from names to values, and lists the names that are unbound.  The ports search,
cut and rebuild strings, or walk indices; what a round of their loops does is
`substRound`, and any loop of such rounds computes `subst` (`substRounds_eq`).
-/
import Envfile.Output

namespace Envfile

/-- A piece of a value. -/
inductive Token where
  | byte (c : UInt8)
  | ref (name : Bytes)
deriving DecidableEq, Repr

/-- What follows a `$`. -/
inductive AfterDollar where
  | ref (name rest : Bytes)
  | unclosed
  | literal
deriving DecidableEq, Repr

def afterDollar : Bytes → AfterDollar
  | [] => .literal
  | c :: s =>
    if c = Byte.lbrace then
      match memchr s Byte.rbrace with
      | none => .unclosed
      | some i => .ref (s.take i) (s.drop (i + 1))
    else if isNameStart c then .ref (c :: s.takeWhile isNameRest) (s.dropWhile isNameRest)
    else .literal

/-- The first `n` steps of the tokenization; a step takes at least one byte. -/
def tokensFrom : Nat → Bytes → List Token
  | 0, _ => []
  | _ + 1, [] => []
  | n + 1, c :: s =>
    if c = Byte.dollar then
      match afterDollar s with
      | .ref name rest => .ref name :: tokensFrom n rest
      | .unclosed => (c :: s).map .byte
      | .literal => .byte c :: tokensFrom n s
    else .byte c :: tokensFrom n s

def tokens (val : Bytes) : List Token := tokensFrom val.length val

/-- The text of some tokens and the unbound names among them, in order. -/
def expand (lookup : Bytes → Option Bytes) : List Token → Bytes × List Bytes
  | [] => ([], [])
  | .byte c :: ts => (c :: (expand lookup ts).1, (expand lookup ts).2)
  | .ref name :: ts =>
    match lookup name with
    | some value => (value ++ (expand lookup ts).1, (expand lookup ts).2)
    | none => ((expand lookup ts).1, name :: (expand lookup ts).2)

def subst (lookup : Bytes → Option Bytes) (val : Bytes) : Bytes × List Bytes :=
  expand lookup (tokens val)

/-! ## Tokens -/

theorem afterDollar_lt {s name rest : Bytes} (h : afterDollar s = .ref name rest) :
    rest.length < s.length := by
  cases s with
  | nil => cases h
  | cons c s =>
      rw [afterDollar] at h
      split at h
      · split at h
        · cases h
        · obtain ⟨-, rfl⟩ := AfterDollar.ref.inj h
          rw [List.length_drop, List.length_cons]
          omega
      · split at h
        · obtain ⟨-, rfl⟩ := AfterDollar.ref.inj h
          exact Nat.lt_succ_of_le (List.length_dropWhile_le _ _)
        · cases h

theorem afterDollar_suffix {s name rest : Bytes} (h : afterDollar s = .ref name rest) :
    rest <:+ s := by
  cases s with
  | nil => cases h
  | cons c s =>
      rw [afterDollar] at h
      split at h
      · split at h
        · cases h
        · obtain ⟨-, rfl⟩ := AfterDollar.ref.inj h
          exact (List.drop_suffix _ s).trans (List.suffix_cons c s)
      · split at h
        · obtain ⟨-, rfl⟩ := AfterDollar.ref.inj h
          exact (List.dropWhile_suffix _).trans (List.suffix_cons c s)
        · cases h

theorem tokensFrom_eq (n : Nat) (val : Bytes) (h : val.length ≤ n) :
    tokensFrom n val = tokens val := by
  have key : ∀ (n m : Nat) (val : Bytes), val.length ≤ n → val.length ≤ m →
      tokensFrom n val = tokensFrom m val := by
    intro n
    induction n with
    | zero =>
        intro m val hn _
        rw [List.eq_nil_of_length_eq_zero (Nat.le_zero.mp hn)]
        cases m <;> rfl
    | succ n ih =>
        intro m val hn hm
        cases val with
        | nil => cases m <;> rfl
        | cons c s =>
            rw [List.length_cons] at hn hm
            obtain ⟨m, rfl⟩ : ∃ m', m = m' + 1 := ⟨m - 1, by omega⟩
            rw [tokensFrom, tokensFrom, ih m s (by omega) (by omega)]
            cases hafter : afterDollar s with
            | ref name rest =>
                have := afterDollar_lt hafter
                simp only [ih m rest (by omega) (by omega)]
            | unclosed => rfl
            | literal => rfl
  exact key n val.length val h le_rfl

theorem tokens_cons (c : UInt8) (s : Bytes) :
    tokens (c :: s) =
      if c = Byte.dollar then
        match afterDollar s with
        | .ref name rest => .ref name :: tokens rest
        | .unclosed => (c :: s).map .byte
        | .literal => .byte c :: tokens s
      else .byte c :: tokens s := by
  rw [tokens, List.length_cons, tokensFrom, tokensFrom_eq _ _ le_rfl]
  cases hafter : afterDollar s with
  | ref name rest => simp only [tokensFrom_eq _ _ (Nat.le_of_lt (afterDollar_lt hafter))]
  | unclosed => rfl
  | literal => rfl

theorem tokens_append {u : Bytes} (hu : Byte.dollar ∉ u) (s : Bytes) :
    tokens (u ++ s) = u.map .byte ++ tokens s := by
  induction u with
  | nil => rfl
  | cons c u ih =>
      rw [List.mem_cons, not_or] at hu
      rw [List.cons_append, tokens_cons, if_neg (fun e => hu.1 e.symm), ih hu.2]
      rfl

/-- The bytes a token has from the value. -/
def Token.bytes : Token → Bytes
  | .byte c => [c]
  | .ref name => name

theorem mem_afterDollar {s name rest : Bytes} (h : afterDollar s = .ref name rest) :
    (∀ c ∈ name, c ∈ s) ∧ ∀ c ∈ rest, c ∈ s := by
  cases s with
  | nil => cases h
  | cons a s =>
      rw [afterDollar] at h
      split at h
      · split at h
        · cases h
        · obtain ⟨rfl, rfl⟩ := AfterDollar.ref.inj h
          exact ⟨fun c hc => List.mem_cons_of_mem _ (List.mem_of_mem_take hc),
            fun c hc => List.mem_cons_of_mem _ (List.mem_of_mem_drop hc)⟩
      · split at h
        · obtain ⟨rfl, rfl⟩ := AfterDollar.ref.inj h
          refine ⟨fun c hc => ?_, fun c hc =>
            List.mem_cons_of_mem _ ((List.dropWhile_sublist _).subset hc)⟩
          rcases List.mem_cons.mp hc with rfl | hc
          · exact List.mem_cons_self
          · exact List.mem_cons_of_mem _ ((List.takeWhile_sublist _).subset hc)
        · cases h

theorem mem_tokens {t : Token} {c : UInt8} (hc : c ∈ t.bytes) :
    ∀ (n : Nat) {val : Bytes}, t ∈ tokensFrom n val → c ∈ val := by
  intro n
  induction n with
  | zero => exact fun h => absurd h List.not_mem_nil
  | succ n ih =>
      intro val h
      cases val with
      | nil => exact absurd h List.not_mem_nil
      | cons a s =>
          have hbyte : t = .byte a → c ∈ a :: s := by
            rintro rfl
            rw [List.mem_singleton.mp hc]
            exact List.mem_cons_self
          rw [tokensFrom] at h
          split at h
          · cases hafter : afterDollar s with
            | ref name rest =>
                rw [hafter] at h
                rcases List.mem_cons.mp h with rfl | h
                · exact List.mem_cons_of_mem _ ((mem_afterDollar hafter).1 c hc)
                · exact List.mem_cons_of_mem _ ((mem_afterDollar hafter).2 c (ih h))
            | unclosed =>
                rw [hafter] at h
                obtain ⟨d, hd, rfl⟩ := List.mem_map.mp h
                rwa [List.mem_singleton.mp hc]
            | literal =>
                rw [hafter] at h
                rcases List.mem_cons.mp h with h | h
                · exact hbyte h
                · exact List.mem_cons_of_mem _ (ih h)
          · rcases List.mem_cons.mp h with h | h
            · exact hbyte h
            · exact List.mem_cons_of_mem _ (ih h)

theorem tokens_of_no_ref {val : Bytes} (h : ∀ name, .ref name ∉ tokens val) :
    tokens val = val.map .byte := by
  induction val with
  | nil => rfl
  | cons c s ih =>
      rw [tokens_cons] at h ⊢
      split at h
      · cases hafter : afterDollar s with
        | ref name rest =>
            rw [hafter] at h
            exact absurd List.mem_cons_self (h name)
        | unclosed => rw [if_pos ‹_›]
        | literal =>
            rw [hafter] at h
            rw [if_pos ‹_›, ih fun name hname => h name (List.mem_cons_of_mem _ hname)]
            rfl
      · rw [if_neg ‹_›, ih fun name hname => h name (List.mem_cons_of_mem _ hname)]
        rfl

/-! ## Resolving references -/

section Subst

variable (lookup : Bytes → Option Bytes)

theorem expand_append (ts us : List Token) :
    expand lookup (ts ++ us) =
      ((expand lookup ts).1 ++ (expand lookup us).1,
        (expand lookup ts).2 ++ (expand lookup us).2) := by
  induction ts with
  | nil => rfl
  | cons t ts ih =>
      rw [List.cons_append]
      cases t with
      | byte c => simp only [expand, ih, List.cons_append]
      | ref name => cases h : lookup name <;> simp [expand, ih, h]

theorem expand_bytes (u : Bytes) : expand lookup (u.map .byte) = (u, []) := by
  induction u with
  | nil => rfl
  | cons c u ih => rw [List.map_cons, expand, ih]

theorem mem_expand {c : UInt8} {ts : List Token} (h : c ∈ (expand lookup ts).1) :
    .byte c ∈ ts ∨ ∃ name value, lookup name = some value ∧ c ∈ value := by
  induction ts with
  | nil => exact absurd h List.not_mem_nil
  | cons t ts ih =>
      have hrest : c ∈ (expand lookup ts).1 →
          .byte c ∈ t :: ts ∨ ∃ name value, lookup name = some value ∧ c ∈ value :=
        fun h => (ih h).imp (List.mem_cons_of_mem _) id
      cases t with
      | byte d =>
          rw [expand] at h
          rcases List.mem_cons.mp h with rfl | h
          · exact Or.inl List.mem_cons_self
          · exact hrest h
      | ref name =>
          rw [expand] at h
          cases hname : lookup name with
          | none =>
              rw [hname] at h
              exact hrest h
          | some value =>
              rw [hname] at h
              rcases List.mem_append.mp h with h | h
              · exact Or.inr ⟨name, value, hname, h⟩
              · exact hrest h

theorem mem_subst {val : Bytes} {c : UInt8} (h : c ∈ (subst lookup val).1) :
    c ∈ val ∨ ∃ name value, lookup name = some value ∧ c ∈ value :=
  (mem_expand lookup h).imp (mem_tokens (List.mem_singleton_self c) _) id

theorem subst_congr {lookup' : Bytes → Option Bytes} {val : Bytes}
    (h : ∀ name, .ref name ∈ tokens val → lookup name = lookup' name) :
    subst lookup val = subst lookup' val := by
  have key : ∀ ts : List Token, (∀ name, .ref name ∈ ts → lookup name = lookup' name) →
      expand lookup ts = expand lookup' ts := by
    intro ts
    induction ts with
    | nil => exact fun _ => rfl
    | cons t ts ih =>
        intro h
        have hrest := ih fun name hname => h name (List.mem_cons_of_mem _ hname)
        cases t with
        | byte c => rw [expand, expand, hrest]
        | ref name => rw [expand, expand, hrest, h name List.mem_cons_self]
  exact key (tokens val) h

theorem subst_of_not_mem {val : Bytes} (h : Byte.dollar ∉ val) : subst lookup val = (val, []) := by
  have := tokens_append h []
  rw [List.append_nil] at this
  rw [subst, this, expand_append, expand_bytes]
  show (val ++ [], [] ++ []) = _
  rw [List.append_nil, List.append_nil]

theorem subst_of_no_ref {val : Bytes} (h : ∀ name, .ref name ∉ tokens val) :
    subst lookup val = (val, []) := by
  rw [subst, tokens_of_no_ref h, expand_bytes]

/-- The value of a reference: nothing when it is unbound. -/
def resolved (name : Bytes) : Bytes × List Bytes :=
  match lookup name with
  | some value => (value, [])
  | none => ([], [name])

theorem subst_dollar {before : Bytes} (h : Byte.dollar ∉ before) (rest : Bytes) :
    subst lookup (before ++ Byte.dollar :: rest) =
      match afterDollar rest with
      | .ref name after =>
          (before ++ (resolved lookup name).1 ++ (subst lookup after).1,
            (resolved lookup name).2 ++ (subst lookup after).2)
      | .unclosed => (before ++ Byte.dollar :: rest, [])
      | .literal => (before ++ Byte.dollar :: (subst lookup rest).1, (subst lookup rest).2) := by
  rw [subst, tokens_append h, tokens_cons, if_pos rfl, expand_append, expand_bytes]
  cases hafter : afterDollar rest with
  | ref name after =>
      simp only [subst, resolved, expand]
      cases lookup name <;> simp
  | unclosed =>
      simp only [expand_bytes]
      rfl
  | literal => rfl

end Subst

/-! ## Reporting unbound names -/

/-- One diagnostic for each unbound name. -/
def Out.unbound {ι : Type} [AddMonoidWithOne ι] (path : Bytes) (lineNo : Nat)
    (names : List Bytes) : Out ι :=
  (names.map fun name => Out.diag ⟨.unboundRef, some name, path, some lineNo⟩).sum

section Unbound

variable {ι : Type} [AddMonoidWithOne ι] (path : Bytes) (lineNo : Nat)

theorem Out.unbound_append (names more : List Bytes) :
    (Out.unbound path lineNo (names ++ more) : Out ι) =
      Out.unbound path lineNo names + Out.unbound path lineNo more := by
  rw [Out.unbound, List.map_append, List.sum_append]
  rfl

theorem Out.unbound_singleton (name : Bytes) :
    (Out.unbound path lineNo [name] : Out ι) =
      Out.diag ⟨.unboundRef, some name, path, some lineNo⟩ := by
  rw [Out.unbound, List.map_singleton, List.sum_singleton]

theorem Out.unbound_eq (names : List Bytes) :
    (Out.unbound path lineNo names : Out ι) =
      ⟨[], names.map fun name => ⟨.unboundRef, some name, path, some lineNo⟩, 0,
        (names.length : ι), []⟩ := by
  induction names with
  | nil => ext1 <;> first | rfl | exact Nat.cast_zero.symm
  | cons name names ih =>
      rw [← List.singleton_append, Out.unbound_append, Out.unbound_singleton, ih]
      ext1
      · rfl
      · rfl
      · exact add_zero 0
      · show 1 + (names.length : ι) = (([name] ++ names).length : ι)
        rw [List.length_append, Nat.cast_add, List.length_singleton, Nat.cast_one]
      · rfl

theorem Out.relocate_unbound (p : Bytes → Bytes) (l : Nat → Nat) (names : List Bytes) :
    Out.relocate p l (Out.unbound path lineNo names : Out ι) =
      Out.unbound (p path) (l lineNo) names := by
  induction names with
  | nil => exact map_zero _
  | cons name names ih =>
      rw [← List.singleton_append, Out.unbound_append, map_add, ih, Out.unbound_append,
        Out.unbound_singleton, Out.unbound_singleton, Out.relocate_diag]
      rfl

theorem Out.FromRecord.unbound (names : List Bytes) :
    Out.FromRecord (Out.unbound path lineNo names : Out ι) := by
  induction names with
  | nil => exact .zero
  | cons name names ih =>
      rw [← List.singleton_append, Out.unbound_append, Out.unbound_singleton]
      exact .add (.diag rfl) ih

end Unbound

/-! ## The loops of the ports -/

section Rounds

variable {ι : Type} [AddMonoidWithOne ι] (lookup : Bytes → Option Bytes) (path : Bytes)
  (lineNo : Nat)

/-- The value of a reference, or a diagnostic. -/
def resolveRef (name : Bytes) : Bytes × Out ι :=
  match lookup name with
  | some value => (value, 0)
  | none => ([], Out.diag ⟨.unboundRef, some name, path, some lineNo⟩)

theorem resolveRef_eq (name : Bytes) :
    (resolveRef lookup path lineNo name : Bytes × Out ι) =
      ((resolved lookup name).1, Out.unbound path lineNo (resolved lookup name).2) := by
  rw [resolveRef, resolved]
  cases lookup name with
  | some value => rfl
  | none => simp only [Out.unbound_singleton]

/-- What a round makes of the rest of a value behind its first `$`, where
`again` is what the later rounds do. -/
def dollarRound (again : Bytes → Bytes × Out ι) (before rest : Bytes) : Bytes × Out ι :=
  match afterDollar rest with
  | .ref name after =>
      (before ++ (resolveRef (ι := ι) lookup path lineNo name).1 ++ (again after).1,
        (resolveRef lookup path lineNo name).2 + (again after).2)
  | .unclosed => (before ++ Byte.dollar :: rest, 0)
  | .literal => (before ++ Byte.dollar :: (again rest).1, (again rest).2)

theorem dollarRound_congr {again again' : Bytes → Bytes × Out ι} (before : Bytes) {rest : Bytes}
    (h : ∀ after, after <:+ rest → again after = again' after) :
    dollarRound lookup path lineNo again before rest =
      dollarRound lookup path lineNo again' before rest := by
  rw [dollarRound, dollarRound]
  cases hafter : afterDollar rest with
  | ref name after => simp only [h after (afterDollar_suffix hafter)]
  | unclosed => rfl
  | literal => simp only [h rest List.suffix_rfl]

/-- A round of the loop that substitutes. -/
def substRound (again : Bytes → Bytes × Out ι) (val : Bytes) : Bytes × Out ι :=
  match memchr val Byte.dollar with
  | none => (val, 0)
  | some dollar => dollarRound lookup path lineNo again (val.take dollar) (val.drop (dollar + 1))

/-- A loop of such rounds resolves what is left of a value, if it has a round
for each byte. -/
theorem substRounds_eq {loop : Nat → Bytes → Bytes × Out ι} {value : Bytes}
    (hround : ∀ rounds val, val <:+ value →
      loop (rounds + 1) val = substRound lookup path lineNo (loop rounds) val)
    (rounds : Nat) (val : Bytes) (hval : val <:+ value) (h : val.length < rounds) :
    loop rounds val =
      ((subst lookup val).1, Out.unbound path lineNo (subst lookup val).2) := by
  induction rounds generalizing val with
  | zero => exact absurd h (Nat.not_lt_zero _)
  | succ rounds ih =>
      rw [hround rounds val hval, substRound]
      rcases split_first Byte.dollar val with hno | ⟨before, rest, rfl, hbefore⟩
      · rw [memchr_eq_none.mpr hno, subst_of_not_mem _ hno]
        rfl
      · rw [List.length_append, List.length_cons] at h
        have hrest : rest <:+ value :=
          ((List.suffix_cons Byte.dollar rest).trans (List.suffix_append before _)).trans hval
        rw [memchr_append hbefore, subst_dollar _ hbefore]
        simp only [take_before, drop_after, dollarRound]
        cases hafter : afterDollar rest with
        | ref name after =>
            have hlt := afterDollar_lt hafter
            have hagain := ih after ((afterDollar_suffix hafter).trans hrest) (by omega)
            simp only [hagain, resolveRef_eq]
            rw [Out.unbound_append]
        | unclosed => rfl
        | literal =>
            have hagain := ih rest hrest (by omega)
            simp only [hagain]

end Rounds

end Envfile
